import Mathlib.Data.List.Basic

/-! Block copies and cyclic windows of a list. `splice` overwrites a block of a
list, `window buf r n` lists the `n` elements found from position `r` on when
the end of `buf` is followed by its start. The positions of a ring buffer are
advanced by comparing and subtracting (`wrap`), never by a division. -/

namespace AvrBridge.Window

variable {α : Type*}

/-! ## Block copies -/

/-- Overwrite `dst` from position `off` on with the elements of `src`. -/
def splice (dst : List α) (off : Nat) (src : List α) : List α :=
  dst.take off ++ src ++ dst.drop (off + src.length)

@[simp] theorem splice_nil (dst : List α) (off : Nat) : splice dst off [] = dst := by
  simp [splice]

theorem length_splice {dst src : List α} {off : Nat} (h : off + src.length ≤ dst.length) :
    (splice dst off src).length = dst.length := by
  simp only [splice, List.length_append, List.length_take, List.length_drop]
  omega

theorem getElem?_splice {dst src : List α} {off : Nat} (h : off + src.length ≤ dst.length)
    (i : Nat) : (splice dst off src)[i]? =
      if i < off then dst[i]? else if i < off + src.length then src[i - off]? else dst[i]? := by
  have ht : (dst.take off).length = off := by rw [List.length_take]; omega
  unfold splice
  rw [List.append_assoc, List.getElem?_append, ht]
  by_cases h1 : i < off
  · simp [h1]
  · rw [if_neg h1, if_neg h1, List.getElem?_append]
    by_cases h2 : i < off + src.length
    · rw [if_pos (by omega), if_pos h2]
    · rw [if_neg (by omega), if_neg h2, List.getElem?_drop]
      congr 1; omega

/-- Two adjacent copies are one copy. -/
theorem splice_splice_append {dst a b : List α} {off : Nat}
    (h : off + a.length + b.length ≤ dst.length) :
    splice (splice dst off a) (off + a.length) b = splice dst off (a ++ b) := by
  have ha : (splice dst off a).length = dst.length := length_splice (by omega)
  apply List.ext_getElem?
  intro i
  rw [getElem?_splice (by omega), getElem?_splice (by omega),
    getElem?_splice (by rw [List.length_append]; omega), List.getElem?_append]
  simp only [List.length_append]
  by_cases h1 : i < off
  · rw [if_pos (by omega), if_pos h1, if_pos h1]
  · by_cases h2 : i < off + a.length
    · rw [if_pos h2, if_neg h1, if_pos h2, if_neg h1, if_pos (by omega), if_pos (by omega)]
    · by_cases h3 : i < off + a.length + b.length
      · rw [if_neg h2, if_pos h3, if_neg h1, if_pos (by omega), if_neg (by omega)]
        congr 1; omega
      · rw [if_neg h2, if_neg h3, if_neg h1, if_neg h2, if_neg h1, if_neg (by omega)]

/-- A copy to the start of `dst` replaces a prefix. -/
theorem splice_zero (dst src : List α) : splice dst 0 src = src ++ dst.drop src.length := by
  simp [splice]

/-! ## Positions of a ring -/

/-- One compare-and-subtract step back into `[0, cap)`. -/
def wrap (cap i : Nat) : Nat := if i < cap then i else i - cap

theorem wrap_lt {cap i : Nat} (h : i < 2 * cap) : wrap cap i < cap := by
  unfold wrap; split <;> omega

theorem wrap_eq_mod {cap i : Nat} (h : i < 2 * cap) : wrap cap i = i % cap := by
  unfold wrap
  split
  · rename_i hi
    exact (Nat.mod_eq_of_lt hi).symm
  · rw [Nat.mod_eq_sub_mod (by omega), Nat.mod_eq_of_lt (by omega)]

theorem wrap_wrap_add {cap i j : Nat} (h : i + j < 2 * cap) :
    wrap cap (wrap cap i + j) = wrap cap (i + j) := by
  unfold wrap; repeat' split
  all_goals omega

theorem wrap_eq_self {cap i : Nat} (h : i < cap) : wrap cap i = i := if_pos h

/-- How many places past `r` the place `w` of a ring lies. -/
def distance (cap r w : Nat) : Nat := if r ≤ w then w - r else cap + w - r

theorem distance_self (cap r : Nat) : distance cap r r = 0 := by
  rw [distance, if_pos (Nat.le_refl r), Nat.sub_self]

theorem distance_lt {cap r w : Nat} (hr : r < cap) (hw : w < cap) : distance cap r w < cap := by
  unfold distance; split <;> omega

theorem wrap_distance {cap r w : Nat} (hr : r < cap) (hw : w < cap) :
    wrap cap (r + distance cap r w) = w := by
  unfold wrap distance; split <;> split <;> omega

theorem distance_wrap {cap r n : Nat} (hr : r < cap) (hn : n < cap) :
    distance cap r (wrap cap (r + n)) = n := by
  unfold wrap distance; split <;> split <;> omega

/-- There and back is once around the ring. -/
theorem distance_add_distance {cap r w : Nat} (hr : r < cap) (hw : w < cap) (hne : r ≠ w) :
    distance cap r w + distance cap w r = cap := by
  unfold distance; split <;> split <;> omega

theorem distance_eq_zero_iff {cap r w : Nat} (hr : r < cap) (hw : w < cap) :
    distance cap r w = 0 ↔ r = w := by
  constructor
  · intro h
    rw [← wrap_distance hr hw, h, Nat.add_zero, wrap_eq_self hr]
  · rintro rfl
    exact distance_self cap r

/-- Going on from the near end shortens the way. -/
theorem distance_wrap_left {cap r w n : Nat} (hr : r < cap) (hw : w < cap)
    (hn : n ≤ distance cap r w) : distance cap (wrap cap (r + n)) w = distance cap r w - n := by
  have hlt := distance_lt hr hw
  have hgoes : wrap cap (wrap cap (r + n) + (distance cap r w - n)) = w := by
    have hsum : r + n + (distance cap r w - n) = r + distance cap r w := by omega
    rw [wrap_wrap_add (by omega), hsum, wrap_distance hr hw]
  have hstart : wrap cap (r + n) < cap := wrap_lt (by omega)
  have hgoes' := distance_wrap hstart (n := distance cap r w - n) (by omega)
  rwa [hgoes] at hgoes'

/-- Going on from the far end lengthens it. -/
theorem distance_wrap_right {cap r w n : Nat} (hr : r < cap) (hw : w < cap)
    (hn : distance cap r w + n < cap) :
    distance cap r (wrap cap (w + n)) = distance cap r w + n := by
  have hgoes : wrap cap (w + n) = wrap cap (r + (distance cap r w + n)) := by
    rw [← Nat.add_assoc, ← wrap_wrap_add (i := r + distance cap r w) (by omega),
      wrap_distance hr hw]
  rw [hgoes, distance_wrap hr hn]

/-- From the next place a place is the last one. -/
theorem distance_next_self {cap r : Nat} (hr : r < cap) :
    distance cap (wrap cap (r + 1)) r = cap - 1 := by
  unfold distance wrap
  split <;> split <;> omega

/-! ## Windows -/

/-- The `n` elements found cyclically from position `r`. -/
def window (buf : List α) (r n : Nat) : List α := (buf.drop r ++ buf.take r).take n

@[simp] theorem window_zero (buf : List α) (r : Nat) : window buf r 0 = [] := by
  simp [window]

theorem length_window {buf : List α} {r n : Nat} (hn : n ≤ buf.length) :
    (window buf r n).length = n := by
  simp only [window, List.length_take, List.length_append, List.length_drop]
  omega

theorem getElem?_window {buf : List α} {r n : Nat} (hr : r < buf.length) (hn : n ≤ buf.length)
    (i : Nat) : (window buf r n)[i]? = if i < n then buf[wrap buf.length (r + i)]? else none := by
  unfold window wrap
  rw [List.getElem?_take]
  by_cases hi : i < n
  · rw [if_pos hi, if_pos hi, List.getElem?_append, List.length_drop]
    by_cases hw : i < buf.length - r
    · rw [if_pos hw, if_pos (by omega), List.getElem?_drop]
    · rw [if_neg hw, if_neg (by omega), List.getElem?_take, if_pos (by omega)]
      congr 1; omega
  · rw [if_neg hi, if_neg hi]

theorem take_window (buf : List α) (r n m : Nat) :
    (window buf r n).take m = window buf r (min m n) := by
  simp [window, List.take_take]

theorem drop_window {buf : List α} {r n m : Nat} (hr : r < buf.length) (hn : n ≤ buf.length)
    (hm : m ≤ n) :
    (window buf r n).drop m = window buf (wrap buf.length (r + m)) (n - m) := by
  apply List.ext_getElem?
  intro i
  rw [List.getElem?_drop, getElem?_window hr hn,
    getElem?_window (wrap_lt (by omega)) (by omega)]
  by_cases hi : i < n - m
  · rw [if_pos (by omega), if_pos hi, wrap_wrap_add (by omega)]
    congr 2; omega
  · rw [if_neg (by omega), if_neg hi]

/-- A window is its part before the physical end followed by the part that wraps. -/
theorem window_eq_append {buf : List α} {r n : Nat} (hr : r ≤ buf.length) (hn : n ≤ buf.length) :
    window buf r n = (buf.drop r).take n ++ buf.take (n - (buf.length - r)) := by
  rw [window, List.take_append, List.length_drop, List.take_take]
  congr 2; omega

theorem head_window {buf : List α} {r n : Nat} (hr : r < buf.length) (hn : n < buf.length) :
    window buf r (n + 1) = buf[r] :: window buf (wrap buf.length (r + 1)) n := by
  apply List.ext_getElem?
  intro i
  rw [getElem?_window hr (by omega)]
  cases i with
  | zero => simp [wrap, hr]
  | succ i =>
    rw [List.getElem?_cons_succ, getElem?_window (wrap_lt (by omega)) (by omega)]
    by_cases hi : i < n
    · rw [if_pos (by omega), if_pos hi, wrap_wrap_add (by omega)]
      congr 2; omega
    · rw [if_neg (by omega), if_neg hi]

/-- An update outside a window does not change it. -/
theorem window_set {buf : List α} {r n w : Nat} (hr : r < buf.length) (hw : w < buf.length)
    (hn : n ≤ distance buf.length r w) (x : α) : window (buf.set w x) r n = window buf r n := by
  have hlt := distance_lt hr hw
  apply List.ext_getElem?
  intro i
  rw [getElem?_window (by rwa [List.length_set]) (by rw [List.length_set]; omega),
    List.length_set, getElem?_window hr (by omega)]
  by_cases hi : i < n
  · rw [if_pos hi, if_pos hi, List.getElem?_set_ne]
    intro heq
    have hway := distance_wrap hr (n := i) (by omega)
    rw [← heq] at hway
    omega
  · rw [if_neg hi, if_neg hi]

/-- Store `src` cyclically from position `w`: up to the physical end first, then from the start. -/
def ringWrite (buf : List α) (w : Nat) (src : List α) : List α :=
  splice (splice buf w (src.take (buf.length - w))) 0 (src.drop (buf.length - w))

theorem length_ringWrite {buf src : List α} {w : Nat} (hw : w ≤ buf.length)
    (hs : src.length ≤ buf.length) : (ringWrite buf w src).length = buf.length := by
  have h1 : (splice buf w (src.take (buf.length - w))).length = buf.length :=
    length_splice (by rw [List.length_take]; omega)
  rw [ringWrite, length_splice (by rw [List.length_drop]; omega), h1]

/-- A write that does not reach the physical end is one copy. -/
theorem ringWrite_of_le {buf src : List α} {w : Nat} (h : w + src.length ≤ buf.length) :
    ringWrite buf w src = splice buf w src := by
  rw [ringWrite, List.take_of_length_le (by omega), List.drop_of_length_le (by omega), splice_nil]

/-- A one-element write is a plain update. -/
theorem set_eq_ringWrite {buf : List α} {w : Nat} (hw : w < buf.length) (x : α) :
    buf.set w x = ringWrite buf w [x] := by
  rw [ringWrite_of_le hw, splice, List.set_eq_take_append_cons_drop, if_pos hw]
  simp

theorem getElem?_ringWrite {buf src : List α} {w i : Nat} (hw : w < buf.length)
    (hs : src.length ≤ buf.length) (hi : i < buf.length) :
    (ringWrite buf w src)[i]? =
      if distance buf.length w i < src.length then src[distance buf.length w i]? else buf[i]? := by
  have hfirst : (splice buf w (src.take (buf.length - w))).length = buf.length :=
    length_splice (by rw [List.length_take]; omega)
  unfold ringWrite
  rw [getElem?_splice (by rw [List.length_drop, hfirst]; omega),
    getElem?_splice (by rw [List.length_take]; omega), if_neg (Nat.not_lt_zero i)]
  simp only [List.length_take, List.length_drop, Nat.zero_add, Nat.sub_zero]
  by_cases hle : w ≤ i
  · -- before the physical end: only the first copy can reach the place
    rw [distance, if_pos hle, if_neg (by omega), if_neg (by omega)]
    by_cases hin : i - w < src.length
    · rw [if_pos (by omega), if_pos hin, List.getElem?_take, if_pos (by omega)]
    · rw [if_neg (by omega), if_neg hin]
  · rw [distance, if_neg hle]
    by_cases hin : buf.length + i - w < src.length
    · rw [if_pos (by omega), if_pos hin, List.getElem?_drop]
      congr 1; omega
    · rw [if_neg (by omega), if_neg hin, if_pos (by omega)]

/-- A cyclic write can start with its first element. -/
theorem ringWrite_cons {buf src : List α} {w : Nat} {x : α} (hw : w < buf.length)
    (hs : src.length < buf.length) :
    ringWrite (ringWrite buf w [x]) (wrap buf.length (w + 1)) src = ringWrite buf w (x :: src) := by
  have hlen : (ringWrite buf w [x]).length = buf.length :=
    length_ringWrite (Nat.le_of_lt hw) (by rw [List.length_singleton]; omega)
  have hnext : wrap buf.length (w + 1) < buf.length := wrap_lt (by omega)
  have hlen' : (ringWrite (ringWrite buf w [x]) (wrap buf.length (w + 1)) src).length =
      buf.length := by
    rw [length_ringWrite (by omega) (by omega), hlen]
  have hcons : (x :: src).length ≤ buf.length := hs
  have hlen'' : (ringWrite buf w (x :: src)).length = buf.length :=
    length_ringWrite (Nat.le_of_lt hw) hcons
  apply List.ext_getElem?
  intro i
  by_cases hi : i < buf.length
  · rw [getElem?_ringWrite (by omega) (by omega) (by omega), hlen,
      getElem?_ringWrite hw (by rw [List.length_singleton]; omega) hi,
      getElem?_ringWrite hw hcons hi, List.length_singleton, List.length_cons]
    by_cases heq : i = w
    · -- the place of the first element comes last for the rest
      rw [heq, distance_next_self hw, distance_self, if_neg (by omega), if_pos (by omega),
        if_pos (by omega)]
      rfl
    · have hpos : distance buf.length w i ≠ 0 := by
        rw [ne_eq, distance_eq_zero_iff hw hi]
        exact fun h => heq h.symm
      obtain ⟨d, hd⟩ : ∃ d, distance buf.length w i = d + 1 :=
        ⟨distance buf.length w i - 1, by omega⟩
      rw [distance_wrap_left hw hi (by omega), hd, Nat.add_sub_cancel,
        if_neg (by omega : ¬ d + 1 < 1)]
      simp only [Nat.add_lt_add_iff_right, List.getElem?_cons_succ]
  · rw [List.getElem?_eq_none (by omega), List.getElem?_eq_none (by omega)]

/-- Writing behind a window appends to it, as long as the write does not reach its start. -/
theorem window_ringWrite {buf src : List α} {r n : Nat} (hr : r < buf.length)
    (hn : n + src.length ≤ buf.length) :
    window (ringWrite buf (wrap buf.length (r + n)) src) r (n + src.length) =
      window buf r n ++ src := by
  have hwrap : wrap buf.length (r + n) < buf.length := wrap_lt (by omega)
  have hlen : (ringWrite buf (wrap buf.length (r + n)) src).length = buf.length :=
    length_ringWrite (Nat.le_of_lt hwrap) (by omega)
  apply List.ext_getElem?
  intro i
  rw [getElem?_window (by omega) (by omega), hlen, List.getElem?_append,
    length_window (by omega), getElem?_window hr (by omega)]
  by_cases hi : i < n + src.length
  · have hpos : wrap buf.length (r + i) < buf.length := wrap_lt (by omega)
    rw [if_pos hi, getElem?_ringWrite hwrap (by omega) hpos]
    by_cases hold : i < n
    · rw [if_pos hold, if_pos hold, if_neg]
      intro hin
      -- the element lies `n - i` places before the write, which ends before it
      have hback : distance buf.length (wrap buf.length (r + i)) (wrap buf.length (r + n)) =
          n - i := by
        have hgoes : wrap buf.length (r + n) =
            wrap buf.length (wrap buf.length (r + i) + (n - i)) := by
          rw [wrap_wrap_add (by omega), show r + i + (n - i) = r + n by omega]
        rw [hgoes, distance_wrap hpos (by omega)]
      have hne : wrap buf.length (r + i) ≠ wrap buf.length (r + n) := by
        intro heq
        rw [heq, distance_self] at hback
        omega
      have hround := distance_add_distance hpos hwrap hne
      omega
    · have hahead : distance buf.length (wrap buf.length (r + n)) (wrap buf.length (r + i)) =
          i - n := by
        have hgoes : wrap buf.length (r + i) =
            wrap buf.length (wrap buf.length (r + n) + (i - n)) := by
          rw [wrap_wrap_add (by omega), show r + n + (i - n) = r + i by omega]
        rw [hgoes, distance_wrap hwrap (by omega)]
      rw [hahead, if_pos (by omega), if_neg hold]
  · rw [if_neg hi, if_neg (by omega), List.getElem?_eq_none (by omega)]

end AvrBridge.Window
