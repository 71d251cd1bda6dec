import AvrBridge.Ft240x
import Mathlib.Data.List.Basic

/-! Whole transfers through the FT240. What `read` takes from the chip stands at the front
of the buffer; what `write` strobes is a prefix of it, and how long it is depends on
the levels of TXE sampled after each strobe. -/

namespace AvrBridge.UsbRead

variable {buf places taken : List UInt8} {n : Nat} {result : Except ErrorKind Nat}

theorem await_cases (pins : Levels) : await pins = .canRead ∨ await pins = .take ∨
    await pins = .done (.error .notConnected) := by
  rw [await, show Ft240x.canRead 0 = Ft240x.Line.rxf.poll 0 from rfl, Ft240x.pollAnswer_poll]
  cases pins.sense <;> cases Ft240x.Line.rxf.isLow pins <;> simp

/-- **The walk over the buffer**: the bytes taken replace its first places. -/
theorem walk_eq {n : Nat} {strobes : List Strobe} {places' : List UInt8}
    (h : walk n places strobes = some (places', taken, result)) :
    taken.length ≤ places.length ∧ places' = taken ++ places.drop taken.length ∧
      (places ≠ [] → taken ≠ []) ∧ ∀ len, result = .ok len → len = n + taken.length := by
  induction places generalizing n strobes places' taken with
  | nil =>
    cases h
    exact ⟨Nat.le_refl _, rfl, id, fun len hlen => (Except.ok.inj hlen).symm⟩
  | cons place places ih =>
    cases strobes with
    | nil => cases h
    | cons strobe strobes =>
      simp only [walk] at h
      split at h
      · cases h
        exact ⟨Nat.le_add_left .., rfl, nofun, nofun⟩
      · split at h
        · cases h
          exact ⟨Nat.le_add_left .., rfl, nofun, fun len hlen => (Except.ok.inj hlen).symm⟩
        · split at h
          · rename_i rest taken' result' hrec
            cases h
            obtain ⟨hle, hrest, -, hlen⟩ := ih hrec
            refine ⟨Nat.succ_le_succ hle, by rw [hrest]; rfl, nofun, fun len hok => ?_⟩
            rw [hlen len hok, List.length_cons]
            omega
          · cases h

/-- **The critical section of a read** into a buffer with places. -/
theorem serve_eq {sense : Bool} {strobes : List Strobe} {buf' : List UInt8} (hbuf : buf ≠ [])
    (h : serve buf sense strobes = some (buf', taken, result)) :
    buf'.length = buf.length ∧ ∀ len, result = .ok len →
      1 ≤ len ∧ len ≤ buf.length ∧ taken.length = len ∧ buf'.take len = taken := by
  unfold serve at h
  split at h
  · cases h
    exact ⟨rfl, nofun⟩
  · obtain ⟨hle, hbuf', hne, hlen⟩ := walk_eq h
    refine ⟨?_, fun len hok => ?_⟩
    · rw [hbuf', List.length_append, List.length_drop]
      omega
    · have hl : taken.length = len := by rw [hlen len hok, Nat.zero_add]
      have hpos := List.length_pos_iff.mpr (hne hbuf)
      exact ⟨by omega, by omega, hl, by rw [hbuf', List.take_left' hl]⟩

end AvrBridge.UsbRead

namespace AvrBridge.UsbWrite

open Rust Ft240x

variable {buf bytes : List UInt8} {n : Nat} {result : Except ErrorKind Nat} {samples : List Levels}

theorem strobe_eq (hn : n < buf.length) (pins : Levels) :
    strobe buf pins n = .ok (buf[n],
      if n + 1 = buf.length ∨ pins.txe = true ∨ pins.sense = false then .done (.ok (n + 1))
      else .writing (n + 1)) := by
  rw [strobe, index_ok (List.getElem?_eq_getElem hn), ok_bind]
  simp [Line.isLow, or_assoc]
  rfl

theorem await_cases (pins : Levels) : await pins = .canWrite ∨ await pins = .writing 0 ∨
    await pins = .done (.error .notConnected) := by
  rw [await, show Ft240x.canWrite 0 = Line.txe.poll 0 from rfl, pollAnswer_poll]
  cases pins.sense <;> cases Line.txe.isLow pins <;> simp

theorem await_of_connected {pins : Levels} (h : pins.sense = true) :
    await pins = if pins.txe then .canWrite else .writing 0 := by
  rw [await, show Ft240x.canWrite 0 = Line.txe.poll 0 from rfl, pollAnswer_poll, h]
  cases ht : pins.txe <;> simp [Line.isLow, ht]

/-- The loop never indexes past the buffer. -/
theorem exists_run_writing (hn : n < buf.length) (samples : List Levels) :
    ∃ bytes w, run buf (.writing n) samples = .ok (bytes, w) := by
  induction samples generalizing n with
  | nil => exact ⟨_, _, rfl⟩
  | cons pins rest ih =>
    have htail : ∃ tail w', run buf (if n + 1 = buf.length ∨ pins.txe = true ∨ pins.sense = false
        then .done (.ok (n + 1)) else .writing (n + 1)) rest = .ok (tail, w') := by
      split
      · cases rest <;> exact ⟨_, _, rfl⟩
      · exact ih (by omega)
    obtain ⟨tail, w', htail⟩ := htail
    refine ⟨buf[n] :: tail, w', ?_⟩
    simp only [run, strobe_eq hn, ok_bind, htail]
    rfl

/-- **The loop, from byte `n` on**, on a connected chip: it stops before byte `m`, and
reaches a byte exactly if TXE was low after every strobe before it. -/
theorem run_writing (hconn : ∀ pins ∈ samples, pins.sense = true) (hn : n < buf.length)
    (h : run buf (.writing n) samples = .ok (bytes, .done result)) :
    ∃ m, n < m ∧ m ≤ buf.length ∧ bytes = (buf.drop n).take (m - n) ∧
      ∀ k, n < k → k ≤ buf.length →
        (k ≤ m ↔ ∀ pins ∈ samples.take (k - 1 - n), pins.txe = false) := by
  induction samples generalizing n bytes with
  | nil => cases h
  | cons pins rest ih =>
    have hsense : pins.sense = true := hconn pins (List.mem_cons_self ..)
    have hdrop : buf.drop n = buf[n] :: buf.drop (n + 1) := List.drop_eq_getElem_cons hn
    rw [run, strobe_eq hn, ok_bind, hsense] at h
    simp only [bind_eq_ok] at h
    obtain ⟨⟨tail, w⟩, htail, hpair⟩ := h
    cases hpair
    by_cases hstop : n + 1 = buf.length ∨ pins.txe = true
    · -- the last byte, or the chip is busy: the loop ends here
      rw [if_pos (by simpa using hstop)] at htail
      have hnil : tail = [] := by cases rest <;> cases htail <;> rfl
      refine ⟨n + 1, Nat.lt_succ_self n, hn, ?_, fun k hk hle => ?_⟩
      · rw [hnil, hdrop, Nat.add_sub_cancel_left]
        rfl
      · constructor
        · intro hk' l hl
          rw [show k - 1 - n = 0 by omega] at hl
          cases hl
        · intro hlow
          by_contra hgt
          obtain ⟨j, hj⟩ : ∃ j, k - 1 - n = j + 1 := ⟨k - 2 - n, by omega⟩
          rw [hj, List.take_succ_cons] at hlow
          have := hlow pins (List.mem_cons_self ..)
          rcases hstop with hlast | hbusy
          · omega
          · rw [hbusy] at this
            cases this
    · rw [if_neg (by simpa using hstop)] at htail
      rw [not_or] at hstop
      obtain ⟨m, hm, hle, hbytes, hreach⟩ :=
        ih (fun l hl => hconn l (List.mem_cons_of_mem _ hl)) (by omega) htail
      refine ⟨m, by omega, hle, ?_, fun k hk hkle => ?_⟩
      · rw [hbytes, hdrop, show m - n = m - (n + 1) + 1 by omega, List.take_succ_cons]
      · by_cases hlast : k = n + 1
        · rw [show k - 1 - n = 0 by omega]
          exact iff_of_true (by omega) nofun
        · rw [hreach k (by omega) hkle, show k - 1 - n = k - 1 - (n + 1) + 1 by omega,
            List.take_succ_cons, List.forall_mem_cons]
          exact ⟨fun hall => ⟨by simpa using hstop.2, hall⟩, fun hall => hall.2⟩

/-- The levels sampled after the strobes: the await ends at the first sample with TXE low. -/
def afterStrobes (samples : List Levels) : List Levels :=
  (samples.dropWhile (·.txe)).tail

/-- No call traps. -/
theorem exists_run_enter (buf : List UInt8) (samples : List Levels) :
    ∃ bytes w, run buf (enter buf) samples = .ok (bytes, w) := by
  unfold enter
  split
  · cases samples <;> exact ⟨_, _, rfl⟩
  · rename_i hbuf
    have hlen : 0 < buf.length := by simpa [Nat.pos_iff_ne_zero] using hbuf
    induction samples with
    | nil => exact ⟨_, _, rfl⟩
    | cons pins rest ih =>
      rw [run]
      rcases await_cases pins with hw | hw | hw <;> rw [hw]
      · exact ih
      · exact exists_run_writing hlen rest
      · cases rest <;> exact ⟨_, _, rfl⟩

/-- **A whole call** on a connected chip. -/
theorem run_enter (hconn : ∀ pins ∈ samples, pins.sense = true) (hbuf : buf ≠ [])
    (h : run buf (enter buf) samples = .ok (bytes, .done result)) :
    ∃ m, 0 < m ∧ m ≤ buf.length ∧ bytes = buf.take m ∧
      ∀ k, 0 < k → k ≤ buf.length →
        (k ≤ m ↔ ∀ pins ∈ (afterStrobes samples).take (k - 1), pins.txe = false) := by
  have hlen : 0 < buf.length := List.length_pos_iff.mpr hbuf
  have henter : enter buf = .canWrite := by
    rw [enter, if_neg]
    simpa using hbuf
  rw [henter] at h
  induction samples with
  | nil => cases h
  | cons pins rest ih =>
    have hrest : ∀ l ∈ rest, l.sense = true := fun l hl => hconn l (List.mem_cons_of_mem _ hl)
    rw [run, await_of_connected (hconn pins (List.mem_cons_self ..))] at h
    cases ht : pins.txe with
    | true =>
      rw [if_pos ht] at h
      rw [afterStrobes, List.dropWhile_cons_of_pos ht]
      exact ih hrest h
    | false =>
      rw [if_neg (by simp [ht])] at h
      rw [afterStrobes, List.dropWhile_cons_of_neg (by simp [ht]), List.tail_cons]
      exact run_writing hrest hlen h

end AvrBridge.UsbWrite
