import Mathlib.Logic.Basic

/-! Sets of small numbers as bit masks: what adding, removing and testing one member
does to the members. -/

namespace AvrBridge.Mask

variable {w : Nat}

theorem getLsbD_add {m : BitVec w} {i : Nat} (hi : i < w) (j : Nat) :
    (m ||| BitVec.twoPow w i).getLsbD j = (m.getLsbD j || decide (i = j)) := by
  rw [BitVec.getLsbD_or, BitVec.getLsbD_twoPow]
  simp [hi]

theorem getLsbD_remove {m : BitVec w} {i : Nat} (hi : i < w) (j : Nat) :
    (m &&& ~~~BitVec.twoPow w i).getLsbD j = (m.getLsbD j && decide (i ≠ j)) := by
  rw [BitVec.getLsbD_and, BitVec.getLsbD_not, BitVec.getLsbD_twoPow]
  by_cases hj : j < w
  · simp [hi, hj]
  · simp [BitVec.getLsbD_of_ge m j (by omega)]

theorem and_twoPow_eq_zero_iff {m : BitVec w} {i : Nat} (hi : i < w) :
    m &&& BitVec.twoPow w i = 0 ↔ m.getLsbD i = false := by
  rw [BitVec.and_twoPow]
  cases hm : m.getLsbD i with
  | false => simp
  | true =>
    have hne : BitVec.twoPow w i ≠ 0 := by
      intro h0
      have hbit := congrArg (fun v : BitVec w => v.getLsbD i) h0
      rw [BitVec.getLsbD_twoPow] at hbit
      simp [hi] at hbit
    simpa using hne

/-! ## Counting members -/

theorem toNat_cpop_eq_countP (m : BitVec w) : m.cpop.toNat = (List.range w).countP m.getLsbD := by
  have hprefix : ∀ k acc, m.cpopNatRec k acc = acc + (List.range k).countP m.getLsbD := by
    intro k
    induction k with
    | zero =>
      intro acc
      rfl
    | succ k ih =>
      intro acc
      rw [BitVec.cpopNatRec_succ, ih, List.range_succ, List.countP_append, List.countP_singleton]
      cases m.getLsbD k
      · simp
      · simp
        omega
  rw [BitVec.toNat_cpop, hprefix, Nat.zero_add]

/-- The members and the numbers below `n` that are not members make up `n`. -/
theorem toNat_cpop_add_countP {m : BitVec w} {n : Nat} (hn : n ≤ w)
    (hm : ∀ i, m.getLsbD i = true → i < n) :
    m.cpop.toNat + (List.range n).countP (fun i => !m.getLsbD i) = n := by
  obtain ⟨k, rfl⟩ : ∃ k, w = n + k := ⟨w - n, by omega⟩
  have hhigh : ((List.range k).map (n + ·)).countP m.getLsbD = 0 := by
    rw [List.countP_eq_zero]
    intro i hi hbit
    obtain ⟨j, -, rfl⟩ := List.mem_map.mp hi
    have := hm _ hbit
    omega
  have hsplit := List.length_eq_countP_add_countP m.getLsbD (l := List.range n)
  rw [List.length_range] at hsplit
  rw [toNat_cpop_eq_countP, List.range_add, List.countP_append, hhigh, Nat.add_zero]
  simpa using hsplit.symm

end AvrBridge.Mask
