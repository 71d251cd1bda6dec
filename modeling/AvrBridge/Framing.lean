import Mathlib.Data.List.Basic

/-! Streams cut into frames. A frame ends behind the first element that ends one, and behind
`cap` elements in any case. No frame is the beginning of another, so where they lie depends on
the stream and on nothing else. -/

namespace AvrBridge.Framing

universe u

variable {α : Type u}

/-- A stretch that goes on: no element ends it, and one more fits. -/
structure Unfinished (ends : α → Bool) (cap : Nat) (xs : List α) : Prop where
  length_lt : xs.length < cap
  quiet : ∀ x ∈ xs, ends x = false

/-- A stretch that its last element ends. -/
def Frame (ends : α → Bool) (cap : Nat) (xs : List α) : Prop :=
  ∃ body last, xs = body ++ [last] ∧ Unfinished ends cap body ∧
    (ends last = true ∨ body.length + 1 = cap)

/-- Read one element behind the frames and the stretch that goes on. -/
def push (ends : α → Bool) (cap : Nat) (c : List (List α) × List α) (x : α) :
    List (List α) × List α :=
  if ends x || c.2.length + 1 == cap then (c.1 ++ [c.2 ++ [x]], []) else (c.1, c.2 ++ [x])

/-- The frames of a stream, and what is left behind the last of them. -/
def cut (ends : α → Bool) (cap : Nat) (xs : List α) : List (List α) × List α :=
  xs.foldl (push ends cap) ([], [])

variable {ends : α → Bool} {cap : Nat} {xs ys : List α}

theorem unfinished_nil (h : 0 < cap) : Unfinished ends cap ([] : List α) :=
  ⟨h, fun _ hx => absurd hx List.not_mem_nil⟩

theorem Unfinished.append (h : Unfinished ends cap xs) (hquiet : ∀ y ∈ ys, ends y = false)
    (hlen : xs.length + ys.length < cap) : Unfinished ends cap (xs ++ ys) := by
  constructor
  · rw [List.length_append]
    exact hlen
  · intro y hy
    rcases List.mem_append.mp hy with hy | hy
    · exact h.quiet y hy
    · exact hquiet y hy

theorem Unfinished.frame (h : Unfinished ends cap xs) {x : α} (hx : ends x = true) :
    Frame ends cap (xs ++ [x]) := ⟨xs, x, rfl, h, .inl hx⟩

/-- A stretch without room for one more element. -/
theorem frame_of_length_eq (hquiet : ∀ x ∈ xs, ends x = false) (hlen : xs.length = cap)
    (hcap : 0 < cap) : Frame ends cap xs := by
  have hne : xs ≠ [] := List.length_pos_iff.mp (by omega)
  have hbody : xs.dropLast.length + 1 = cap := by
    rw [List.length_dropLast]
    omega
  refine ⟨xs.dropLast, xs.getLast hne, (List.dropLast_concat_getLast hne).symm, ?_, .inr hbody⟩
  constructor
  · exact Nat.lt_of_succ_le (Nat.le_of_eq hbody)
  · intro x hx
    exact hquiet x (List.dropLast_subset _ hx)

theorem Frame.length_le (h : Frame ends cap xs) : xs.length ≤ cap := by
  obtain ⟨body, last, rfl, hbody, -⟩ := h
  rw [List.length_append]
  exact hbody.length_lt

theorem Frame.ne_nil (h : Frame ends cap xs) : xs ≠ [] := by
  obtain ⟨body, last, rfl, -, -⟩ := h
  exact List.append_ne_nil_of_right_ne_nil _ (List.cons_ne_nil _ _)

/-- A frame that no element ends is full. -/
theorem Frame.length_eq (h : Frame ends cap xs) (hquiet : ∀ x ∈ xs, ends x = false) :
    xs.length = cap := by
  obtain ⟨body, last, rfl, -, hlast | hlen⟩ := h
  · have hmem : last ∈ body ++ [last] := List.mem_append_right _ (List.mem_singleton_self last)
    rw [hquiet last hmem] at hlast
    cases hlast
  · rw [List.length_append]
    exact hlen

/-- What comes before the end of a stretch that goes on, goes on. -/
theorem Unfinished.of_append (h : Unfinished ends cap (xs ++ ys)) : Unfinished ends cap xs := by
  constructor
  · have := h.length_lt
    rw [List.length_append] at this
    omega
  · intro x hx
    exact h.quiet x (List.mem_append_left _ hx)

theorem push_quiet {x : α} (frames : List (List α)) (h : Unfinished ends cap (xs ++ [x])) :
    push ends cap (frames, xs) x = (frames, xs ++ [x]) := by
  have hx : ends x = false := h.quiet x (List.mem_append_right _ (List.mem_singleton_self x))
  have hlen := h.length_lt
  rw [List.length_append, List.length_singleton] at hlen
  rw [push, if_neg]
  rw [hx, Bool.false_or, beq_iff_eq]
  exact Nat.ne_of_lt hlen

theorem push_last {x : α} (frames : List (List α)) (h : ends x = true ∨ xs.length + 1 = cap) :
    push ends cap (frames, xs) x = (frames ++ [xs ++ [x]], []) := by
  rw [push, if_pos]
  rw [Bool.or_eq_true, beq_iff_eq]
  exact h

/-- A stretch that goes on stays behind the frames. -/
theorem foldl_push_unfinished (frames : List (List α)) (h : Unfinished ends cap (xs ++ ys)) :
    ys.foldl (push ends cap) (frames, xs) = (frames, xs ++ ys) := by
  induction ys generalizing xs with
  | nil => rw [List.foldl_nil, List.append_nil]
  | cons y ys ih =>
    have hassoc : xs ++ y :: ys = (xs ++ [y]) ++ ys := by
      rw [List.append_assoc]
      rfl
    rw [hassoc] at h
    rw [List.foldl_cons, push_quiet frames h.of_append, ih h, hassoc]

/-- A frame is cut off whole. -/
theorem foldl_push_frame (frames : List (List α)) (h : Frame ends cap xs) :
    xs.foldl (push ends cap) (frames, []) = (frames ++ [xs], []) := by
  obtain ⟨body, last, rfl, hbody, hlast⟩ := h
  have hbegin : Unfinished ends cap ([] ++ body) := hbody
  rw [List.foldl_append, foldl_push_unfinished frames hbegin, List.nil_append,
    List.foldl_cons, List.foldl_nil, push_last frames hlast]

/-- **Frames are found again**: a stream that is made of frames and a stretch that goes on is
cut into just these. -/
theorem cut_flatten_append {frames : List (List α)} {rest : List α}
    (hframes : ∀ f ∈ frames, Frame ends cap f) (hrest : Unfinished ends cap rest) :
    cut ends cap (frames.flatten ++ rest) = (frames, rest) := by
  have hall : ∀ before : List (List α),
      frames.flatten.foldl (push ends cap) (before, []) = (before ++ frames, []) := by
    induction frames with
    | nil =>
      intro before
      rw [List.append_nil]
      rfl
    | cons f frames ih =>
      intro before
      have htail := ih fun g hg => hframes g (List.mem_cons_of_mem _ hg)
      rw [List.flatten_cons, List.foldl_append,
        foldl_push_frame before (hframes f (List.mem_cons_self ..)), htail, List.append_assoc]
      rfl
  have hbegin : Unfinished ends cap ([] ++ rest) := hrest
  rw [cut, List.foldl_append, hall, foldl_push_unfinished _ hbegin]
  rfl

theorem frames_prefix_foldl (c : List (List α) × List α) :
    c.1 <+: (xs.foldl (push ends cap) c).1 := by
  induction xs generalizing c with
  | nil => exact List.prefix_refl _
  | cons x xs ih =>
    refine List.IsPrefix.trans ?_ (ih (push ends cap c x))
    unfold push
    split
    · exact List.prefix_append ..
    · exact List.prefix_refl _

/-- **Later elements move no frame.** -/
theorem cut_prefix (h : xs <+: ys) : (cut ends cap xs).1 <+: (cut ends cap ys).1 := by
  obtain ⟨tail, rfl⟩ := h
  rw [cut, cut, List.foldl_append]
  exact frames_prefix_foldl _

end AvrBridge.Framing
