import AvrBridge.FlatRuns
import AvrBridge.Tasks

/-! What the two tasks put into their transmit buffers. A buffer that has been reset and
never read takes a piece in full or not at all, so a message is the greedy choice of
the pieces that still fit. -/

namespace AvrBridge.Tasks

open Rust FlatBuffer

/-- Append a piece if the whole fits into `cap` places. -/
def appendFit (cap : Nat) (message piece : List UInt8) : List UInt8 :=
  if message.length + piece.length ≤ cap then message ++ piece else message

/-- The pieces that still fit, in order, none in part. -/
def greedy (cap : Nat) (pieces : List (List UInt8)) : List UInt8 :=
  pieces.foldl (appendFit cap) []

/-- What was appended before stays in front. -/
theorem prefix_foldl_appendFit (cap : Nat) (message : List UInt8) (pieces : List (List UInt8)) :
    message <+: pieces.foldl (appendFit cap) message := by
  induction pieces generalizing message with
  | nil => exact List.prefix_refl _
  | cons piece pieces ih =>
    refine List.IsPrefix.trans ?_ (ih (appendFit cap message piece))
    unfold appendFit
    split
    · exact List.prefix_append ..
    · exact List.prefix_refl _

/-- A buffer over `cap` places that holds this message and has not been read. -/
structure Filled (f : FlatBuffer) (cap : Nat) (message : List UInt8) : Prop where
  length_buf : f.buf.length = cap
  rPos_eq : f.rPos = 0
  good : Good ⟨f, message⟩

section Filled

variable {f : FlatBuffer} {cap : Nat} {message : List UInt8}

theorem filled_reset (f : FlatBuffer) : Filled f.reset.2 f.buf.length [] :=
  ⟨rfl, rfl, good_reset ⟨f, []⟩⟩

theorem Filled.len_eq (h : Filled f cap message) : f.len = message.length :=
  h.good.length_unread.symm

theorem Filled.wPos_eq (h : Filled f cap message) : f.wPos = message.length := by
  have := h.good.wPos_eq
  rw [h.rPos_eq, Nat.zero_add] at this
  rw [← h.len_eq]
  exact this

theorem Filled.length_le (h : Filled f cap message) : message.length ≤ cap := by
  rw [← h.wPos_eq, ← h.length_buf]
  exact h.good.wPos_le

theorem Filled.asRef (h : Filled f cap message) : f.asRef = .ok message := h.good.asRef_eq

theorem Filled.stored (h : Filled f cap message) {piece : List UInt8}
    (hfit : message.length + piece.length ≤ cap) :
    Filled (f.stored piece) cap (message ++ piece) := by
  have hw : f.wPos + piece.length ≤ f.buf.length := by rwa [h.wPos_eq, h.length_buf]
  exact ⟨(Window.length_splice hw).trans h.length_buf, h.rPos_eq, h.good.stored hw⟩

theorem Filled.writeAll (h : Filled f cap message) (piece : List UInt8) :
    ∃ r f', f.writeAll piece = .ok (r, f') ∧ Filled f' cap (appendFit cap message piece) := by
  have hle := h.length_le
  have heq := h.good.writeAll_eq piece
  rw [show (State.mk f message).flat = f from rfl, h.len_eq, h.wPos_eq, h.length_buf] at heq
  unfold appendFit
  by_cases hfit : message.length + piece.length ≤ cap
  · rw [if_neg (by omega), if_pos hfit] at heq
    exact ⟨_, _, heq, by rw [if_pos hfit]; exact h.stored hfit⟩
  · rw [if_pos (by omega)] at heq
    exact ⟨_, _, heq, by rw [if_neg hfit]; exact h⟩

theorem Filled.writeStr (h : Filled f cap message) (piece : List UInt8) :
    ∃ r f', f.writeStr piece = .ok (r, f') ∧ Filled f' cap (appendFit cap message piece) := by
  obtain ⟨r, f', heq, hf⟩ := h.writeAll piece
  exact ⟨r.toBool, f', by rw [FlatBuffer.writeStr, heq]; rfl, hf⟩

theorem Filled.writeByte (h : Filled f cap message) (byte : UInt8) :
    ∃ r f', f.writeByte byte = .ok (r, f') ∧ Filled f' cap (appendFit cap message [byte]) := by
  have hle := h.length_le
  have hfull : f.isFull = decide (message.length = cap) := by
    rw [isFull, h.len_eq, h.length_buf]
    rfl
  unfold appendFit
  by_cases hfit : message.length + 1 ≤ cap
  · have hf : (State.mk f message).flat.isFull = false := by
      rw [show (State.mk f message).flat = f from rfl, hfull, decide_eq_false (by omega)]
    have heq := writeByte_eq byte hf
    rw [show (State.mk f message).flat = f from rfl, h.wPos_eq, h.length_buf, if_pos hfit] at heq
    exact ⟨_, _, heq, by rw [if_pos (by exact hfit)]; exact h.stored hfit⟩
  · refine ⟨.error .insufficientSpace, f, ?_, by rw [if_neg (by exact hfit)]; exact h⟩
    rw [FlatBuffer.writeByte, hfull, decide_eq_true (by omega), if_pos rfl]

end Filled

/-! ## The messages -/

/-- The three pieces behind the payload. -/
def trailer (len : Nat) : List (List UInt8) :=
  [asBytes " bytes: ", [UInt8.ofNat (len + 0x30)], asBytes "\r\n"]

theorem digit_eq {p : Profile} {len : Nat} (h : len ≤ 128) :
    digit p len = .ok (UInt8.ofNat (len + 0x30)) := by
  rw [digit, asU8_of_lt (by omega), Profile.addU8_ok (by omega)]
  rfl

/-- A report is the payload, if it fits, and the pieces that still fit behind it. -/
theorem writeReport_eq {p : Profile} {tx : FlatBuffer} {cap len : Nat} {message : List UInt8}
    (h : Filled tx cap message) (payload : List UInt8) (hlen : len ≤ 128) :
    ∃ tx', writeReport p tx payload len = .ok tx' ∧
      Filled tx' cap ((payload :: trailer len).foldl (appendFit cap) message) := by
  obtain ⟨_, tx₁, h₁, hf₁⟩ := h.writeAll payload
  obtain ⟨_, tx₂, h₂, hf₂⟩ := hf₁.writeStr (asBytes " bytes: ")
  obtain ⟨_, tx₃, h₃, hf₃⟩ := hf₂.writeByte (UInt8.ofNat (len + 0x30))
  obtain ⟨_, tx₄, h₄, hf₄⟩ := hf₃.writeStr (asBytes "\r\n")
  refine ⟨tx₄, ?_, ?_⟩
  · simp only [writeReport, h₁, h₂, h₃, h₄, digit_eq hlen, ok_bind]
    rfl
  · simp only [trailer, List.foldl_cons, List.foldl_nil]
    exact hf₄

theorem writeFrame_eq {p : Profile} {tx : FlatBuffer} {cap len : Nat} (title : String)
    (h : Filled tx cap []) {rx : List UInt8} (hpos : 1 ≤ len) (hlen : len ≤ 128)
    (hrx : len ≤ rx.length) :
    ∃ tx', writeFrame p title tx rx len = .ok tx' ∧
      Filled tx' cap (greedy cap (asBytes title :: rx.take (len - 1) :: trailer len)) := by
  obtain ⟨_, tx₁, h₁, hf₁⟩ := h.writeStr (asBytes title)
  obtain ⟨tx₂, h₂, hf₂⟩ := writeReport_eq (p := p) hf₁ (rx.take (len - 1)) hlen
  have hle : len - 1 ≤ rx.length := by omega
  refine ⟨tx₂, ?_, ?_⟩
  · simp only [writeFrame, h₁, ok_bind, subUsize, if_pos hpos, sliceOf_zero hle, h₂]
  · rw [greedy, List.foldl_cons]
    exact hf₂

theorem ft240Message_eq {p : Profile} {tx : FlatBuffer} {cap len : Nat} (h : Filled tx cap [])
    {rx : List UInt8} (hlen : len ≤ 128) (hrx : len ≤ rx.length) :
    ∃ tx', ft240Message p tx rx (.ok len) = .ok tx' ∧
      Filled tx' cap (greedy cap (rx.take len :: trailer len)) := by
  obtain ⟨tx₁, h₁, hf₁⟩ := writeReport_eq (p := p) h (rx.take len) hlen
  refine ⟨tx₁, ?_, hf₁⟩
  simp only [ft240Message, sliceOf_zero hrx, ok_bind, h₁]

end AvrBridge.Tasks
