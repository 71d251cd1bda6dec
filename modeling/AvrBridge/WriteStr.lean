import AvrBridge.CircularRefinement
import AvrBridge.ConstRefinement

/-! Formatted output into the two rings. `write_str` is the same line in both, but one
`write` stores all or nothing and the other what fits, and that one refuses no bytes. -/

namespace AvrBridge.WriteStr

open Rust

/-- `write_str` should succeed exactly if the bytes fit, then append them, and else change
nothing. -/
def AllOrNothing {σ : Type} (queue : σ → List UInt8) (free : Nat) (str : String) (s t : σ)
    (result : Except FmtError Unit) : Prop :=
  (result = .ok () ↔ (strAsBytes str).length ≤ free) ∧
    (result = .ok () → queue t = queue s ++ strAsBytes str) ∧
    (result ≠ .ok () → t = s)

/-- The complete output of a `write!`. -/
def output (pieces : List String) : List UInt8 := pieces.flatMap strAsBytes

/-- A `write!` returns, and if it answers `Ok` it has stored its output. -/
def Complete {σ : Type} (queue : σ → List UInt8)
    (writeStr : σ → String → Except Panic (Except FmtError Unit × σ)) (s : σ)
    (pieces : List String) : Prop :=
  ∃ result t, writeFmt writeStr s pieces = .ok (result, t) ∧
    (result = .ok () → queue t = queue s ++ output pieces)

section Pieces

variable {σ : Type} {queue : σ → List UInt8}
  {writeStr : σ → String → Except Panic (Except FmtError Unit × σ)} {s t : σ} {piece : String}
  {pieces : List String}

theorem complete_nil : Complete queue writeStr s [] :=
  ⟨.ok (), s, rfl, fun _ => (List.append_nil _).symm⟩

/-- A piece that fails ends the output. -/
theorem complete_of_error {e : FmtError} (h : writeStr s piece = .ok (.error e, t)) :
    Complete queue writeStr s (piece :: pieces) := by
  refine ⟨.error e, t, ?_, fun hok => (by cases hok)⟩
  simp only [writeFmt, h, ok_bind]
  rfl

/-- A piece that goes in leaves the rest to do. -/
theorem complete_cons_iff (h : writeStr s piece = .ok (.ok (), t))
    (hqueue : queue t = queue s ++ strAsBytes piece) :
    Complete queue writeStr s (piece :: pieces) ↔ Complete queue writeStr t pieces := by
  simp only [Complete, writeFmt, h, ok_bind, hqueue, output, List.flatMap_cons, List.append_assoc]

end Pieces

/-! ## `CircularBuffer` -/

namespace Circular

open CircularBuffer

variable {s : CircularBuffer}

theorem writeStr_of_fits (h : s.WF) {str : String}
    (hfit : (strAsBytes str).length ≤ s.capacity - 1 - s.queue.length) :
    s.writeStr str = .ok (.ok (), s.append (strAsBytes str)) := by
  rw [writeStr, write_fits h hfit, ok_bind]
  rfl

theorem writeStr_of_full (h : s.WF) {str : String}
    (hfull : s.capacity - 1 - s.queue.length < (strAsBytes str).length) :
    s.writeStr str = .ok (.error .error, s) := by
  rw [writeStr, write_full h hfull, ok_bind]
  rfl

theorem append_fits (h : s.WF) {bytes : List UInt8}
    (hfit : bytes.length ≤ s.capacity - 1 - s.queue.length) :
    (s.append bytes).WF ∧ (s.append bytes).queue = s.queue ++ bytes := by
  have hlt := h.count_lt
  have hfit' : s.count + bytes.length < s.capacity := by
    rw [h.length_queue] at hfit
    omega
  exact ⟨append_wf h hfit', append_queue h hfit'⟩

theorem writeStr_allOrNothing (h : s.WF) (str : String) :
    ∃ result t, s.writeStr str = .ok (result, t) ∧
      AllOrNothing CircularBuffer.queue (s.capacity - 1 - s.queue.length) str s t result := by
  by_cases hfit : (strAsBytes str).length ≤ s.capacity - 1 - s.queue.length
  · refine ⟨_, _, writeStr_of_fits h hfit, ?_, ?_, ?_⟩
    · exact iff_of_true rfl hfit
    · intro _
      exact (append_fits h hfit).2
    · intro hne
      exact absurd rfl hne
  · refine ⟨_, _, writeStr_of_full h (by omega), ?_, ?_, ?_⟩
    · exact iff_of_false (fun heq => (by cases heq)) hfit
    · intro heq
      cases heq
    · intro _
      rfl

theorem writeFmt_complete (h : s.WF) (pieces : List String) :
    Complete CircularBuffer.queue CircularBuffer.writeStr s pieces := by
  induction pieces generalizing s with
  | nil => exact complete_nil
  | cons piece pieces ih =>
    by_cases hfit : (strAsBytes piece).length ≤ s.capacity - 1 - s.queue.length
    · obtain ⟨hwf, hqueue⟩ := append_fits h hfit
      exact (complete_cons_iff (writeStr_of_fits h hfit) hqueue).mpr (ih hwf)
    · exact complete_of_error (writeStr_of_full h (by omega))

end Circular

/-! ## `ConstCircularBuffer` -/

namespace Const

open ConstCircularBuffer

variable {CAPACITY : Nat} {s : ConstCircularBuffer CAPACITY} {str : String}

theorem writeStr_empty : s.writeStr "" = (.error .error, s) := by
  have hnil : strAsBytes "" = [] := (strAsBytes_eq_nil_iff "").mpr rfl
  rw [writeStr, hnil]
  rfl

theorem writeStr_full (hstr : str ≠ "") (hfull : s.len = CAPACITY) :
    s.writeStr str = (.error .error, s) := by
  have hne : ¬ (strAsBytes str).isEmpty = true := by
    rwa [List.isEmpty_iff, strAsBytes_eq_nil_iff]
  rw [writeStr, write, if_neg hne, isFull, if_pos (by simpa using hfull)]

/-- What fits goes in, and the answer is `Ok` whatever is left over. -/
theorem writeStr_room (hstr : str ≠ "") (hroom : s.len ≠ CAPACITY) :
    s.writeStr str = (.ok (),
      s.copyIn (strAsBytes str) (min (strAsBytes str).length s.freeSpace)) := by
  have hne : ¬ (strAsBytes str).isEmpty = true := by
    rwa [List.isEmpty_iff, strAsBytes_eq_nil_iff]
  rw [writeStr, write, if_neg hne, isFull, if_neg (by simpa using hroom)]

theorem copyIn_room (h : s.WF) (bytes : List UInt8) :
    (s.copyIn bytes (min bytes.length s.freeSpace)).WF ∧
      (s.copyIn bytes (min bytes.length s.freeSpace)).queue =
        s.queue ++ bytes.take (min bytes.length s.freeSpace) := by
  have hle := h.len_le
  have hfree : s.freeSpace = CAPACITY - s.len := rfl
  exact ⟨copyIn_wf h (Nat.min_le_left ..) (by omega),
    copyIn_queue h (Nat.min_le_left ..) (by omega)⟩

theorem strAsBytes_pos (hstr : str ≠ "") : 0 < (strAsBytes str).length := by
  rw [List.length_pos_iff, ne_eq, strAsBytes_eq_nil_iff]
  exact hstr

theorem writeStr_allOrNothing_iff (h : s.WF) (str : String) :
    AllOrNothing ConstCircularBuffer.queue s.freeSpace str s (s.writeStr str).2 (s.writeStr str).1 ↔
      str ≠ "" ∧ ((strAsBytes str).length ≤ s.freeSpace ∨ s.freeSpace = 0) := by
  have hle := h.len_le
  have hfree : s.freeSpace = CAPACITY - s.len := rfl
  by_cases hstr : str = ""
  · -- no bytes fit, but the write refuses an empty source
    subst hstr
    rw [writeStr_empty]
    constructor
    · rintro ⟨hok, -, -⟩
      have hnil : (strAsBytes "").length ≤ s.freeSpace := by
        rw [(strAsBytes_eq_nil_iff "").mpr rfl]
        exact Nat.zero_le _
      cases hok.mpr hnil
    · intro hne
      exact absurd rfl hne.1
  · have hpos := strAsBytes_pos hstr
    by_cases hfull : s.len = CAPACITY
    · rw [writeStr_full hstr hfull]
      have hnot : ¬ (strAsBytes str).length ≤ s.freeSpace := by omega
      constructor
      · intro _
        exact ⟨hstr, .inr (by omega)⟩
      · intro _
        refine ⟨iff_of_false (fun heq => (by cases heq)) hnot, ?_, fun _ => rfl⟩
        intro heq
        cases heq
    · rw [writeStr_room hstr hfull]
      constructor
      · rintro ⟨hok, -, -⟩
        exact ⟨hstr, .inl (hok.mp rfl)⟩
      · rintro ⟨-, hfit⟩
        have hfits : (strAsBytes str).length ≤ s.freeSpace := by omega
        refine ⟨iff_of_true rfl hfits, ?_, fun hne => absurd rfl hne⟩
        intro _
        rw [(copyIn_room h (strAsBytes str)).2, Nat.min_eq_left hfits, List.take_length]

/-- `write_str` as `write!` calls it. -/
def writePiece (s : ConstCircularBuffer CAPACITY) (str : String) :
    Except Panic (Except FmtError Unit × ConstCircularBuffer CAPACITY) := .ok (s.writeStr str)

theorem length_output_cons (piece : String) (pieces : List String) :
    (output (piece :: pieces)).length = (strAsBytes piece).length + (output pieces).length := by
  rw [output, List.flatMap_cons, List.length_append]
  rfl

theorem length_output_dropLast (piece next : String) (rest : List String) :
    (output (piece :: next :: rest).dropLast).length =
      (strAsBytes piece).length + (output (next :: rest).dropLast).length := by
  rw [List.dropLast_cons_cons, length_output_cons]

/-- A piece that goes in whole: the rest decides. -/
theorem writePiece_fits (h : s.WF) (hstr : str ≠ "") (hroom : s.len ≠ CAPACITY)
    (hfit : (strAsBytes str).length ≤ s.freeSpace) :
    ∃ t, writePiece s str = .ok (.ok (), t) ∧ t.WF ∧ t.queue = s.queue ++ strAsBytes str ∧
      t.freeSpace = s.freeSpace - (strAsBytes str).length := by
  obtain ⟨hwf, hqueue⟩ := copyIn_room h (strAsBytes str)
  rw [Nat.min_eq_left hfit, List.take_length] at hqueue
  rw [Nat.min_eq_left hfit] at hwf
  refine ⟨_, ?_, hwf, hqueue, ?_⟩
  · rw [writePiece, writeStr_room hstr hroom, Nat.min_eq_left hfit]
  · show CAPACITY - (s.len + (strAsBytes str).length) = CAPACITY - s.len - _
    omega

/-- A piece that goes in cut short: the ring is full, and the next piece fails. -/
theorem writePiece_straddles (h : s.WF) (hstr : str ≠ "") (hroom : s.len ≠ CAPACITY)
    (hcut : s.freeSpace < (strAsBytes str).length) :
    ∃ t, writePiece s str = .ok (.ok (), t) ∧
      t.queue = s.queue ++ (strAsBytes str).take s.freeSpace ∧
      ∀ next, writePiece t next = .ok (.error .error, t) := by
  have hle := h.len_le
  obtain ⟨-, hqueue⟩ := copyIn_room h (strAsBytes str)
  rw [Nat.min_eq_right (Nat.le_of_lt hcut)] at hqueue
  refine ⟨_, ?_, hqueue, ?_⟩
  · rw [writePiece, writeStr_room hstr hroom, Nat.min_eq_right (Nat.le_of_lt hcut)]
  · intro next
    by_cases hempty : next = ""
    · rw [hempty, writePiece, writeStr_empty]
    · rw [writePiece, writeStr_full hempty]
      show s.len + (CAPACITY - s.len) = CAPACITY
      omega

/-- A `write!` loses output exactly if its last piece is the one that straddles the end of
the free space: an earlier one makes the next fail. -/
theorem writeFmt_complete_iff (h : s.WF) (pieces : List String) :
    Complete ConstCircularBuffer.queue writePiece s pieces ↔
      "" ∈ pieces ∨ (output pieces).length ≤ s.freeSpace ∨
        s.freeSpace ≤ (output pieces.dropLast).length := by
  induction pieces generalizing s with
  | nil => exact iff_of_true complete_nil (.inr (.inl (Nat.zero_le _)))
  | cons piece pieces ih =>
    have hle := h.len_le
    have hfree : s.freeSpace = CAPACITY - s.len := rfl
    have hall := length_output_cons piece pieces
    by_cases hstr : piece = ""
    · have hres : writePiece s piece = .ok (.error .error, s) := by
        rw [hstr, writePiece, writeStr_empty]
      exact iff_of_true (complete_of_error hres) (.inl (by rw [hstr]; exact List.mem_cons_self ..))
    have hmem : "" ∈ piece :: pieces ↔ "" ∈ pieces := by
      simp [Ne.symm hstr]
    rw [hmem]
    by_cases hfull : s.len = CAPACITY
    · have hres : writePiece s piece = .ok (.error .error, s) := by
        rw [writePiece, writeStr_full hstr hfull]
      exact iff_of_true (complete_of_error hres) (.inr (.inr (by omega)))
    by_cases hfit : (strAsBytes piece).length ≤ s.freeSpace
    · obtain ⟨t, hres, hwf, hqueue, hfree'⟩ := writePiece_fits h hstr hfull hfit
      rw [complete_cons_iff hres hqueue, ih hwf, hfree']
      cases pieces with
      | nil => exact iff_of_true (.inr (.inl (Nat.zero_le _))) (.inr (.inl (by rwa [hall])))
      | cons next rest =>
        have hinit := length_output_dropLast piece next rest
        constructor
        · rintro (hempty | hfits | hover)
          · exact .inl hempty
          · exact .inr (.inl (by omega))
          · exact .inr (.inr (by omega))
        · rintro (hempty | hfits | hover)
          · exact .inl hempty
          · exact .inr (.inl (by omega))
          · exact .inr (.inr (by omega))
    · obtain ⟨t, hres, hqueue, hnext⟩ := writePiece_straddles h hstr hfull (by omega)
      cases pieces with
      | nil =>
        have hnil : (output []).length = 0 := rfl
        apply iff_of_false
        · rintro ⟨result, u, hwrite, hcomplete⟩
          simp only [writeFmt, hres, ok_bind] at hwrite
          cases hwrite
          have hlen := congrArg List.length (hcomplete rfl)
          rw [hqueue, List.length_append, List.length_append, List.length_take] at hlen
          omega
        · rintro (hempty | hfits | hover)
          · cases hempty
          · omega
          · have hinit : (output [piece].dropLast).length = 0 := rfl
            omega
      | cons next rest =>
        have hinit := length_output_dropLast piece next rest
        apply iff_of_true
        · refine ⟨.error .error, t, ?_, fun hok => (by cases hok)⟩
          simp only [writeFmt, hres, hnext, ok_bind]
          rfl
        · exact .inr (.inr (by omega))

end Const

/-! ## Both rings -/

/-- `CircularBuffer` stores formatted output all or nothing, whatever the state and the text.
`ConstCircularBuffer` does so exactly for a text that is not empty and either fits or finds the
ring full; its `write!` loses output exactly if the last of its pieces, none of them empty, is
cut short. -/
theorem write_str_all_or_nothing {capacity : Nat} (hcap : 1 ≤ capacity) (ptr : Nat)
    {storage : List UInt8} (hlen : storage.length = capacity) (calls : List CircularBuffer.Call)
    (constCalls : List ConstCircularBuffer.Call) :
    (∃ answers s, (CircularBuffer.new ptr capacity storage).runCalls calls = .ok (answers, s) ∧
      (∀ str, ∃ free result t, s.freeSpace = .ok free ∧ s.writeStr str = .ok (result, t) ∧
        AllOrNothing CircularBuffer.queue free str s t result) ∧
      ∀ pieces, Complete CircularBuffer.queue CircularBuffer.writeStr s pieces) ∧
    let s := ((ConstCircularBuffer.new capacity).runCalls constCalls).2
    (∀ str, AllOrNothing ConstCircularBuffer.queue s.freeSpace str s (s.writeStr str).2
        (s.writeStr str).1 ↔
      str ≠ "" ∧ ((strAsBytes str).length ≤ s.freeSpace ∨ s.freeSpace = 0)) ∧
    ∀ pieces, Complete ConstCircularBuffer.queue Const.writePiece s pieces ↔
      "" ∈ pieces ∨ (output pieces).length ≤ s.freeSpace ∨
        s.freeSpace ≤ (output pieces.dropLast).length := by
  constructor
  · obtain ⟨cap, rfl⟩ : ∃ cap, capacity = cap + 1 := ⟨capacity - 1, by omega⟩
    obtain ⟨s, hrun, hs⟩ :=
      CircularBuffer.runCalls_simulates (CircularBuffer.represents_new ptr hlen) calls
    refine ⟨_, s, hrun, ?_, Circular.writeFmt_complete hs.wf⟩
    intro str
    obtain ⟨result, t, hwrite, hlaw⟩ := Circular.writeStr_allOrNothing hs.wf str
    exact ⟨_, result, t, CircularBuffer.freeSpace_eq hs.wf, hwrite, hlaw⟩
  · intro s
    have h : s.WF := (ConstCircularBuffer.runCalls_simulates hcap
      (ConstCircularBuffer.represents_new hcap) constCalls).2.1
    exact ⟨Const.writeStr_allOrNothing_iff h, Const.writeFmt_complete_iff h⟩

/-- One free place is enough for "a". -/
theorem write_str_all_or_nothing_one :
    AllOrNothing ConstCircularBuffer.queue 1 "a" (ConstCircularBuffer.new 1)
      ((ConstCircularBuffer.new 1).writeStr "a").2 ((ConstCircularBuffer.new 1).writeStr "a").1 :=
  ((write_str_all_or_nothing (Nat.le_refl 1) 0 (show [0].length = 1 from rfl) [] []).2.1 "a").mpr
    ⟨by decide, .inl (by decide)⟩

/-- One free place takes the "a" of "ab", and the answer is `Ok`; a `write!` of it answers `Ok`
with half its output stored. The empty text is an error. -/
theorem write_str_all_or_nothing_fails :
    ¬ AllOrNothing ConstCircularBuffer.queue 1 "ab" (ConstCircularBuffer.new 1)
        ((ConstCircularBuffer.new 1).writeStr "ab").2
        ((ConstCircularBuffer.new 1).writeStr "ab").1 ∧
      ¬ Complete ConstCircularBuffer.queue Const.writePiece (ConstCircularBuffer.new 1) ["ab"] ∧
      ¬ AllOrNothing ConstCircularBuffer.queue 1 "" (ConstCircularBuffer.new 1)
        ((ConstCircularBuffer.new 1).writeStr "").2
        ((ConstCircularBuffer.new 1).writeStr "").1 := by
  refine ⟨?_, ?_, ?_⟩
  · rintro ⟨hok, -, -⟩
    exact absurd (hok.mp (by decide)) (by decide)
  · have hrun : writeFmt Const.writePiece (ConstCircularBuffer.new 1) ["ab"] =
        .ok (.ok (), ⟨0, 0, 1, [97]⟩) := by decide
    rintro ⟨result, t, hwrite, hall⟩
    rw [hrun] at hwrite
    cases hwrite
    exact absurd (hall rfl) (by decide)
  · rintro ⟨hok, -, -⟩
    exact absurd (hok.mpr (by decide)) (by decide)

end AvrBridge.WriteStr
