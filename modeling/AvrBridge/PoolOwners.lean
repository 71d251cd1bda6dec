import AvrBridge.PoolRing

/-! Who uses a pool slot. A conversion drops the handle, so the slot goes back
into the ring while its storage is still in use; it is handed out again once the
slots that were free before it are gone. `Fresh` says that no request comes so
late, and under it every live owner has a slot of its own. -/

namespace AvrBridge.PoolOwners

open Rust Lts

variable {N C : Nat} {p : Profile}

/-- A live owner of pool storage. For storage made from a handle the history
records how many slots had been handed out before the conversion and how many
were free. -/
inductive Owner where
  | handle (h : BufferHandle)
  | storage (s : Storage) (since freeThen : Nat)
  deriving DecidableEq, Repr

/-- The pool slot an owner uses. -/
def Owner.slot : Owner → Nat
  | .handle h => h.ptr
  | .storage s _ _ => s.ptr

structure State (N C : Nat) where
  pool : BufferPool N C
  owners : List Owner
  handedOut : Nat
  deriving DecidableEq, Repr

inductive Op where
  | poll (w : Waker)
  | convert (k : Nat) (kind : StorageKind)
  | drop (k : Nat)
  | finish (k : Nat)
  deriving DecidableEq, Repr

/-- One step of the owners: a request is polled, the `k`-th owner is a handle that is
converted or dropped, or it is storage that goes out of use. -/
def step (p : Profile) (s : State N C) : Op → Option (State N C)
  | .poll w =>
      match s.pool.poll p w with
      | .ok (.ready h, b) => some ⟨b, s.owners ++ [.handle h], s.handedOut + 1⟩
      | .ok (.pending, b) => some { s with pool := b }
      | .error _ => none
  | .convert k kind =>
      match s.owners[k]? with
      | some (.handle h) =>
          match Storage.fromHandle p kind s.pool h with
          | .ok (storage, b) =>
              let owner := .storage storage s.handedOut s.pool.allocator.count
              some { s with pool := b, owners := s.owners.set k owner }
          | .error _ => none
      | _ => none
  | .drop k =>
      match s.owners[k]? with
      | some (.handle h) =>
          match s.pool.dropHandle p h with
          | .ok b => some { s with pool := b, owners := s.owners.eraseIdx k }
          | .error _ => none
      | _ => none
  | .finish k =>
      match s.owners[k]? with
      | some (.storage ..) => some { s with owners := s.owners.eraseIdx k }
      | _ => none

def system (p : Profile) (N C : Nat) : System (State N C) Op :=
  .ofFun ⟨.new N C, [], 0⟩ (step p)

/-- No two live owners use one slot. -/
def Exclusive (s : State N C) : Prop := (s.owners.map Owner.slot).Nodup

/-- Fewer slots have been handed out since the conversion than were free before it. -/
def Owner.early (handedOut : Nat) : Owner → Prop
  | .handle _ => True
  | .storage _ since freeThen => handedOut < since + freeThen

/-- A request is made only while a slot is free and every converted buffer in use is early. -/
def Fresh (s : State N C) : Op → Prop
  | .poll _ => 0 < s.pool.allocator.count ∧ ∀ o ∈ s.owners, o.early s.handedOut
  | _ => True

instance (n : Nat) (o : Owner) : Decidable (o.early n) :=
  match o with
  | .handle _ => inferInstanceAs (Decidable True)
  | .storage _ since freeThen => inferInstanceAs (Decidable (n < since + freeThen))

instance (s : State N C) (op : Op) : Decidable (Fresh s op) :=
  match op with
  | .poll _ => inferInstanceAs
      (Decidable (0 < s.pool.allocator.count ∧ ∀ o ∈ s.owners, o.early s.handedOut))
  | .convert .. | .drop _ | .finish _ => inferInstanceAs (Decidable True)

/-! ## The invariant -/

/-- What the pool knows of one owner: a handle's slot is outstanding, the slot of
converted storage is at a known place of the ring. -/
def Tracked (s : State N C) : Owner → Prop
  | .handle h => h.ptr = h.poolIdx ∧ h.ptr < N ∧ s.pool.allocator.outstanding h.ptr = true
  | .storage m since freeThen => s.handedOut ≤ since + freeThen ∧
      s.pool.allocator.free[since + freeThen - s.handedOut]? = some m.ptr

structure Inv (s : State N C) : Prop where
  sound : s.pool.Sound
  exclusive : Exclusive s
  tracked : ∀ o ∈ s.owners, Tracked s o
  held : ∀ i < N, s.pool.allocator.outstanding i = true → ∃ h, .handle h ∈ s.owners ∧ h.ptr = i

theorem inv_init (hN₁ : 1 ≤ N) (hN : N ≤ 8) : Inv (⟨.new N C, [], 0⟩ : State N C) where
  sound := BufferPool.new_sound hN₁ hN
  exclusive := List.nodup_nil
  tracked := nofun
  held i _ hi := by simp [BufferPool.new, BufferAllocator.new, BufferAllocator.outstanding] at hi

/-- A list split at one of its places, with that place replaced and removed. -/
theorem split_at {α : Type} {l : List α} {k : Nat} {x : α} (h : l[k]? = some x) :
    ∃ before after, l = before ++ x :: after ∧ (∀ y, l.set k y = before ++ y :: after) ∧
      l.eraseIdx k = before ++ after := by
  obtain ⟨hk, rfl⟩ := List.getElem?_eq_some_iff.mp h
  refine ⟨l.take k, l.drop (k + 1), ?_, fun y => ?_, List.eraseIdx_eq_take_drop_succ l k⟩
  · rw [List.getElem_cons_drop, List.take_append_drop]
  · rw [List.set_eq_take_append_cons_drop, if_pos hk]

/-- The slot of a ready poll is in use exactly if some converted buffer was late. -/
theorem slot_mem_owners_iff {s : State N C} (h : Inv s) {i : Nat} {rest : List Nat}
    (hfree : s.pool.allocator.free = i :: rest) :
    i ∈ s.owners.map Owner.slot ↔ ∃ o ∈ s.owners, ¬ o.early s.handedOut := by
  have hmem := (h.sound.allocator.mem_free i).mp (by rw [hfree]; exact List.mem_cons_self ..)
  have hnd := h.sound.allocator.nodup_free
  rw [hfree, List.nodup_cons] at hnd
  constructor
  · intro hi
    obtain ⟨o, ho, rfl⟩ := List.mem_map.mp hi
    refine ⟨o, ho, ?_⟩
    have ht := h.tracked o ho
    cases o with
    | handle h' =>
      rw [show (Owner.handle h').slot = h'.ptr from rfl, ht.2.2] at hmem
      cases hmem.2
    | storage m since freeThen =>
      obtain ⟨_, hget⟩ := ht
      intro hearly
      simp only [Owner.early] at hearly
      obtain ⟨q, hq⟩ : ∃ q, since + freeThen - s.handedOut = q + 1 :=
        ⟨since + freeThen - s.handedOut - 1, by omega⟩
      rw [hfree, hq, List.getElem?_cons_succ] at hget
      exact hnd.1 (List.mem_of_getElem? hget)
  · rintro ⟨o, ho, hlate⟩
    cases o with
    | handle h' => exact absurd trivial hlate
    | storage m since freeThen =>
      obtain ⟨hle, hget⟩ := h.tracked _ ho
      simp only [Owner.early] at hlate
      rw [show since + freeThen - s.handedOut = 0 by omega, hfree] at hget
      exact List.mem_map.mpr ⟨_, ho, (Option.some.inj hget).symm⟩

/-! ## The steps -/

theorem inv_poll (hN : N ≤ 8) {s t : State N C} {w : Waker} (h : Inv s) (hf : Fresh s (.poll w))
    (hs : step p s (.poll w) = some t) : Inv t := by
  obtain ⟨i, capacity, b, hp, hfree, hb, _, _, hout⟩ :=
    s.pool.poll_of_pos (p := p) hN h.sound hf.1 w
  simp only [step, hp, Option.some.injEq] at hs
  subst hs
  have hmem := (h.sound.allocator.mem_free i).mp (by rw [hfree]; exact List.mem_cons_self ..)
  have hnew : i ∉ s.owners.map Owner.slot := by
    rw [slot_mem_owners_iff h hfree]
    rintro ⟨o, ho, hlate⟩
    exact hlate (hf.2 o ho)
  refine ⟨hb, ?_, ?_, ?_⟩
  · simp only [Exclusive, List.map_append, List.map_cons, List.map_nil, List.nodup_append]
    refine ⟨h.exclusive, List.nodup_singleton _, fun a ha c hc e => ?_⟩
    rw [List.mem_singleton.mp hc] at e
    subst e
    exact hnew ha
  · intro o ho
    rcases List.mem_append.mp ho with ho | ho
    · have ht := h.tracked o ho
      cases o with
      | handle h' => exact ⟨ht.1, ht.2.1, by rw [hout, ht.2.2]; rfl⟩
      | storage m since freeThen =>
        have hearly := hf.2 _ ho
        simp only [Owner.early] at hearly
        obtain ⟨_, hget⟩ := ht
        constructor
        · exact hearly
        · rw [hfree, show since + freeThen - s.handedOut =
            (since + freeThen - (s.handedOut + 1)) + 1 by omega, List.getElem?_cons_succ] at hget
          exact hget
    · rw [List.mem_singleton.mp ho]
      exact ⟨rfl, hmem.1, by rw [hout]; simp⟩
  · intro j hj hjo
    rw [hout, Bool.or_eq_true, decide_eq_true_eq] at hjo
    rcases hjo with hjo | rfl
    · obtain ⟨h', hh', e⟩ := h.held j hj hjo
      exact ⟨h', List.mem_append_left _ hh', e⟩
    · exact ⟨_, List.mem_append_right _ (List.mem_singleton.mpr rfl), rfl⟩

/-- Dropping a handle in use puts its slot at the end of the ring. -/
theorem dropHandle_tracked (hN : N ≤ 8) {s : State N C} (h : Inv s) {hd : BufferHandle}
    (ht : Tracked s (.handle hd)) :
    ∃ b, s.pool.dropHandle p hd = .ok b ∧ b.Sound ∧
      b.allocator.free = s.pool.allocator.free ++ [hd.ptr] ∧
      ∀ j, b.allocator.outstanding j =
        (s.pool.allocator.outstanding j && decide (hd.ptr ≠ j)) := by
  obtain ⟨hidx, hlt, hout⟩ := ht
  obtain ⟨b, hr, hfree, hb, _, hout'⟩ :=
    s.pool.releaseBuffer_of_outstanding (p := p) hN h.sound hlt hout
  refine ⟨b, ?_, hb, hfree, hout'⟩
  rw [hidx] at hr
  simp only [BufferPool.dropHandle, hr, ok_bind]
  rfl

/-- The other owners do not notice a release. -/
theorem tracked_release {s : State N C} {b : BufferPool N C} {owners : List Owner} {x : Nat}
    (hfree : b.allocator.free = s.pool.allocator.free ++ [x])
    (hout : ∀ j, b.allocator.outstanding j =
      (s.pool.allocator.outstanding j && decide (x ≠ j)))
    {o : Owner} (ho : Tracked s o) (hne : x ≠ o.slot) :
    Tracked { s with pool := b, owners := owners } o := by
  cases o with
  | handle h' =>
    refine ⟨ho.1, ho.2.1, ?_⟩
    rw [hout, ho.2.2, Bool.true_and, decide_eq_true_eq]
    exact hne
  | storage m since freeThen =>
    obtain ⟨hle, hget⟩ := ho
    constructor
    · exact hle
    · rw [hfree, List.getElem?_append_left (List.getElem?_eq_some_iff.mp hget).1]
      exact hget

/-- A handle's slot is not that of another owner. -/
theorem slots_of_split {s : State N C} (h : Inv s) {before after : List Owner} {o : Owner}
    (hsplit : s.owners = before ++ o :: after) :
    ((before ++ after).map Owner.slot).Nodup ∧ ∀ o' ∈ before ++ after, o.slot ≠ o'.slot := by
  have hnd := h.exclusive
  rw [Exclusive, hsplit, List.map_append, List.map_cons, List.nodup_middle, List.nodup_cons,
    ← List.map_append] at hnd
  exact ⟨hnd.2, fun o' ho' e => hnd.1 (List.mem_map.mpr ⟨o', ho', e.symm⟩)⟩

/-- A handle that is in no list of owners is not lost by a release. -/
theorem held_release {s : State N C} {b : BufferPool N C} {before after : List Owner}
    {hd : BufferHandle} (h : Inv s) (hsplit : s.owners = before ++ .handle hd :: after)
    (hout : ∀ j, b.allocator.outstanding j =
      (s.pool.allocator.outstanding j && decide (hd.ptr ≠ j)))
    {i : Nat} (hi : i < N) (hio : b.allocator.outstanding i = true) :
    ∃ h', Owner.handle h' ∈ before ++ after ∧ h'.ptr = i := by
  rw [hout, Bool.and_eq_true, decide_eq_true_eq] at hio
  obtain ⟨h', hh', rfl⟩ := h.held i hi hio.1
  rw [hsplit, List.mem_append, List.mem_cons] at hh'
  refine ⟨h', ?_, rfl⟩
  rcases hh' with hh' | hh' | hh'
  · exact List.mem_append_left _ hh'
  · cases hh'
    exact absurd rfl hio.2
  · exact List.mem_append_right _ hh'

theorem inv_convert (hN : N ≤ 8) {s t : State N C} {k : Nat} {kind : StorageKind} (h : Inv s)
    (hs : step p s (.convert k kind) = some t) : Inv t := by
  simp only [step] at hs
  split at hs
  · rename_i hd hk
    obtain ⟨before, after, hsplit, hset, _⟩ := split_at hk
    obtain ⟨b, hb, hsound, hfree, hout⟩ :=
      dropHandle_tracked (p := p) hN h (h.tracked _ (List.mem_of_getElem? hk))
    obtain ⟨_, hne⟩ := slots_of_split h hsplit
    simp only [Storage.fromHandle, hb, ok_bind, hset] at hs
    cases hs
    refine ⟨hsound, ?_, ?_, ?_⟩
    · have hnd := h.exclusive
      rw [Exclusive, hsplit] at hnd
      simpa [Exclusive, Owner.slot] using hnd
    · intro o ho
      rw [List.mem_append, List.mem_cons] at ho
      rcases ho with ho | rfl | ho
      · exact tracked_release hfree hout (h.tracked o (by rw [hsplit]; simp [ho]))
          (hne o (List.mem_append_left _ ho))
      · -- the converted slot is the last of the ring, behind the slots free before
        constructor
        · exact Nat.le_add_right ..
        · rw [hfree, Nat.add_sub_cancel_left, ← h.sound.allocator.length_free]
          simp
      · exact tracked_release hfree hout (h.tracked o (by rw [hsplit]; simp [ho]))
          (hne o (List.mem_append_right _ ho))
    · intro i hi hio
      obtain ⟨h', hh', e⟩ := held_release h hsplit hout hi hio
      refine ⟨h', ?_, e⟩
      rw [List.mem_append] at hh'
      rw [List.mem_append, List.mem_cons]
      exact hh'.imp_right .inr
  · cases hs

theorem inv_drop (hN : N ≤ 8) {s t : State N C} {k : Nat} (h : Inv s)
    (hs : step p s (.drop k) = some t) : Inv t := by
  simp only [step] at hs
  split at hs
  · rename_i hd hk
    obtain ⟨before, after, hsplit, _, herase⟩ := split_at hk
    obtain ⟨b, hb, hsound, hfree, hout⟩ :=
      dropHandle_tracked (p := p) hN h (h.tracked _ (List.mem_of_getElem? hk))
    obtain ⟨hnd, hne⟩ := slots_of_split h hsplit
    simp only [hb, herase] at hs
    cases hs
    refine ⟨hsound, hnd, fun o ho => ?_, fun i hi hio => held_release h hsplit hout hi hio⟩
    refine tracked_release hfree hout (h.tracked o ?_) (hne o ho)
    rw [hsplit, List.mem_append, List.mem_cons]
    exact (List.mem_append.mp ho).imp_right .inr
  · cases hs

theorem inv_finish {s t : State N C} {k : Nat} (h : Inv s)
    (hs : step p s (.finish k) = some t) : Inv t := by
  simp only [step] at hs
  split at hs
  · rename_i m since freeThen hk
    obtain ⟨before, after, hsplit, _, herase⟩ := split_at hk
    obtain ⟨hnd, _⟩ := slots_of_split h hsplit
    rw [herase] at hs
    cases hs
    have hsub : ∀ o ∈ before ++ after, o ∈ s.owners := by
      intro o ho
      rw [hsplit, List.mem_append, List.mem_cons]
      exact (List.mem_append.mp ho).imp_right .inr
    refine ⟨h.sound, hnd, fun o ho => ?_, fun i hi hio => ?_⟩
    · have ht := h.tracked o (hsub o ho)
      cases o <;> exact ht
    · obtain ⟨h', hh', e⟩ := h.held i hi hio
      rw [hsplit, List.mem_append, List.mem_cons] at hh'
      refine ⟨h', List.mem_append.mpr ?_, e⟩
      rcases hh' with hh' | hh' | hh'
      · exact .inl hh'
      · cases hh'
      · exact .inr hh'
  · cases hs

/-- **Step lemma.** -/
theorem inv_step (hN : N ≤ 8) {s t : State N C} {op : Op} (h : Inv s) (hf : Fresh s op)
    (hs : step p s op = some t) : Inv t := by
  cases op with
  | poll w => exact inv_poll hN h hf hs
  | convert k kind => exact inv_convert hN h hs
  | drop k => exact inv_drop hN h hs
  | finish k => exact inv_finish h hs

theorem inv_reachedWhile (hN₁ : 1 ≤ N) (hN : N ≤ 8) {s : State N C}
    (h : (system p N C).ReachedWhile Fresh s) : Inv s := by
  refine h.invariant ?_ ?_
  · rintro s rfl
    exact inv_init hN₁ hN
  · intro s op t hi hf hs
    exact inv_step hN hi hf hs

/-- A request that is not fresh hands out a slot in use. -/
theorem not_exclusive_of_late (hN : N ≤ 8) {s t : State N C} {w : Waker} (h : Inv s)
    (hf : ¬ Fresh s (.poll w)) (hs : step p s (.poll w) = some t) : ¬ Exclusive t := by
  -- any ready poll whose slot already belongs to an owner breaks exclusivity
  have hdup : ∀ i capacity b, s.pool.poll p w = .ok (.ready ⟨i, capacity, i⟩, b) →
      i ∈ s.owners.map Owner.slot → ¬ Exclusive t := by
    intro i capacity b hp hi
    simp only [step, hp, Option.some.injEq] at hs
    subst hs
    simp only [Exclusive, List.map_append, List.map_cons, List.map_nil, List.nodup_append]
    rintro ⟨_, _, hdis⟩
    exact hdis i hi i (List.mem_singleton.mpr rfl) rfl
  rcases Nat.eq_zero_or_pos s.pool.allocator.count with hc | hc
  · cases hp : s.pool.poll p w with
    | error e =>
      simp only [step, hp] at hs
      cases hs
    | ok x =>
      obtain ⟨r, b⟩ := x
      obtain ⟨i, capacity, _, rfl, hi, _⟩ := BufferPool.poll_inv hp
      have hiN := h.sound.allocator.entry_lt i (List.mem_of_getElem? hi)
      have hnil : s.pool.allocator.free = [] := by
        rw [← List.length_eq_zero_iff, h.sound.allocator.length_free, hc]
      have hout : s.pool.allocator.outstanding i = true := by
        rw [← Bool.not_eq_false]
        intro hfalse
        have := (h.sound.allocator.mem_free i).mpr ⟨hiN, hfalse⟩
        rw [hnil] at this
        cases this
      obtain ⟨h', hh', rfl⟩ := h.held i hiN hout
      exact hdup _ _ _ hp (List.mem_map.mpr ⟨_, hh', rfl⟩)
  · obtain ⟨i, capacity, b, hp, hfree, _⟩ := s.pool.poll_of_pos (p := p) hN h.sound hc w
    refine hdup _ _ _ hp ((slot_mem_owners_iff h hfree).mpr ?_)
    by_contra hall
    exact hf ⟨hc, fun o ho => by_contra fun hlate => hall ⟨o, ho, hlate⟩⟩

/-- **Exclusive ownership, exactly.** On every run whose requests are all fresh the
live owners use different slots; a request that is not fresh, after such a run,
either traps or is given a slot in use. -/
theorem exclusive_iff_fresh (p : Profile) (N C : Nat) (hN₁ : 1 ≤ N) (hN : N ≤ 8)
    (s : State N C) (h : (system p N C).ReachedWhile Fresh s) :
    Exclusive s ∧ ∀ op t, step p s op = some t → (Exclusive t ↔ Fresh s op) := by
  have hinv := inv_reachedWhile hN₁ hN h
  refine ⟨hinv.exclusive, fun op t hs =>
    ⟨fun he => ?_, fun hf => (inv_step hN hinv hf hs).exclusive⟩⟩
  cases op with
  | poll w => exact by_contra fun hf => not_exclusive_of_late hN hinv hf hs he
  | convert | drop | finish => trivial

/-- Four requests, each converted at once, as the two tasks of the firmware make them. -/
def fourBuffers : List Op :=
  [.poll 0, .convert 0 .slice, .poll 0, .convert 1 .flatBuffer,
    .poll 0, .convert 2 .slice, .poll 0, .convert 3 .flatBuffer]

theorem fourBuffers_slots :
    (runFun (guarded Fresh (step .dev))
      (⟨.new numBuffers bufferSize, [], 0⟩ : State numBuffers bufferSize)
      fourBuffers).map (·.owners.map Owner.slot) = some [0, 1, 2, 3] := by rfl

/-- After the four conversions the four buffers are those of different slots. -/
theorem exclusive_iff_fresh_four :
    ∃ s : State numBuffers bufferSize, s.owners.map Owner.slot = [0, 1, 2, 3] ∧
      Exclusive s ∧ ∀ op t, step .dev s op = some t → (Exclusive t ↔ Fresh s op) := by
  obtain ⟨s, hs, hslots⟩ := Option.map_eq_some_iff.mp fourBuffers_slots
  exact ⟨s, hslots, exclusive_iff_fresh .dev numBuffers bufferSize (by decide) (by decide) s
    (reachedWhile_of_runFun fourBuffers (.init rfl) hs)⟩

/-- A request, the conversion of its handle, and eight more requests. -/
def ninthRequest : List Op :=
  .poll 0 :: .convert 0 .flatBuffer :: List.replicate 8 (.poll 0)

/-- The slots in use after `ninthRequest`, by the order of their owners. -/
theorem ninthRequest_slots (p : Profile) :
    (runFun (step p) (⟨.new numBuffers bufferSize, [], 0⟩ : State numBuffers bufferSize)
      ninthRequest).map (·.owners.map Owner.slot) = some [0, 1, 2, 3, 4, 5, 6, 7, 0] := by
  obtain ⟨_ | _⟩ := p <;> rfl

/-- The flat buffer on slot 0 is still in use when the ninth request gets slot 0. -/
theorem exclusive_false :
    ¬ ∀ (p : Profile) (s : State numBuffers bufferSize),
      (system p numBuffers bufferSize).Reachable s → Exclusive s := by
  intro h
  obtain ⟨s, hs, hslots⟩ := Option.map_eq_some_iff.mp (ninthRequest_slots .release)
  have hnd := h .release s (reachable_of_runFun ninthRequest (.init rfl) hs)
  rw [Exclusive, hslots] at hnd
  exact absurd hnd (by decide)

end AvrBridge.PoolOwners
