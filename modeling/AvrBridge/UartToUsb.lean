import AvrBridge.BufferPool
import AvrBridge.Ft240xTransfers
import AvrBridge.Messages

/-! Frames on their way from the UART to USB. The payload has to fit behind the title in
the transmit buffer, and the chip has to stay ready until its last byte: otherwise
bytes are dropped, since neither count is looked at. -/

namespace AvrBridge.Tasks

open Rust FlatBuffer UsbWrite

theorem length_foldl_appendFit_le (cap : Nat) (message : List UInt8) (pieces : List (List UInt8)) :
    (pieces.foldl (appendFit cap) message).length ≤ message.length + pieces.flatten.length := by
  induction pieces generalizing message with
  | nil => exact Nat.le_refl _
  | cons piece pieces ih =>
    have hle : (appendFit cap message piece).length ≤ message.length + piece.length := by
      unfold appendFit
      split
      · exact Nat.le_of_eq List.length_append
      · exact Nat.le_add_right ..
    have := ih (appendFit cap message piece)
    rw [List.flatten_cons, List.length_append]
    simp only [List.foldl_cons]
    omega

/-- The message of a complete frame. -/
def frameMessage (rx : List UInt8) (len : Nat) : List UInt8 :=
  greedy bufferSize (asBytes "Complete: " :: rx.take (len - 1) :: trailer len)

theorem length_title : (asBytes "Complete: ").length = 10 := by decide

theorem appendFit_title : appendFit bufferSize [] (asBytes "Complete: ") = asBytes "Complete: " :=
  rfl

section Frame

variable {rx : List UInt8} {len : Nat}

theorem frameMessage_ne_nil : frameMessage rx len ≠ [] := by
  have hpre := prefix_foldl_appendFit bufferSize (asBytes "Complete: ")
    (rx.take (len - 1) :: trailer len)
  rw [← appendFit_title, ← List.foldl_cons, appendFit_title] at hpre
  have hle : (asBytes "Complete: ").length ≤ (frameMessage rx len).length := hpre.length_le
  rw [length_title] at hle
  exact List.length_pos_iff.mp (by omega)

/-- A payload that fits stands behind the title. -/
theorem frameMessage_of_le (hrx : rx.length = bufferSize) (hlen : len ≤ 119) :
    asBytes "Complete: " ++ rx.take (len - 1) <+: frameMessage rx len := by
  have hcap : bufferSize = 128 := rfl
  have hpay : appendFit bufferSize (asBytes "Complete: ") (rx.take (len - 1)) =
      asBytes "Complete: " ++ rx.take (len - 1) := by
    rw [appendFit, if_pos]
    rw [length_title, List.length_take]
    omega
  rw [frameMessage, greedy, List.foldl_cons, List.foldl_cons, appendFit_title, hpay]
  exact prefix_foldl_appendFit ..

/-- A longer payload is left out. -/
theorem length_frameMessage_of_gt (hrx : rx.length = bufferSize) (hlen : 119 < len)
    (hle : len ≤ bufferSize) : (frameMessage rx len).length ≤ 21 := by
  have hcap : bufferSize = 128 := rfl
  have hpay : appendFit bufferSize (asBytes "Complete: ") (rx.take (len - 1)) =
      asBytes "Complete: " := by
    rw [appendFit, if_neg]
    rw [length_title, List.length_take]
    omega
  rw [frameMessage, greedy, List.foldl_cons, List.foldl_cons, appendFit_title, hpay]
  exact length_foldl_appendFit_le bufferSize (asBytes "Complete: ") (trailer len)

/-- Which prefixes of the message hold the whole payload. -/
theorem payload_take_iff (hrx : rx.length = bufferSize) (hpos : 1 ≤ len) (hle : len ≤ bufferSize)
    (m : Nat) :
    (((frameMessage rx len).take m).drop 10).take (len - 1) = rx.take (len - 1) ↔
      len = 1 ∨ (len ≤ 119 ∧ len + 9 ≤ m) := by
  have hcap : bufferSize = 128 := rfl
  have hpayload : (rx.take (len - 1)).length = len - 1 := by
    rw [List.length_take]
    omega
  constructor
  · intro heq
    have hl := congrArg List.length heq
    rw [hpayload, List.length_take, List.length_drop, List.length_take] at hl
    by_cases hlong : len ≤ 119
    · omega
    · have := length_frameMessage_of_gt hrx (by omega) hle
      omega
  · rintro (rfl | ⟨hlong, hm⟩)
    · rfl
    · obtain ⟨rest, hrest⟩ := frameMessage_of_le hrx hlong
      have hhead : (asBytes "Complete: " ++ rx.take (len - 1)).length ≤ m := by
        rw [List.length_append, length_title, hpayload]
        omega
      rw [← hrest, List.take_append, List.take_of_length_le hhead, List.append_assoc,
        List.drop_left' length_title, List.take_left' hpayload]

end Frame

/-- **Forwarding of a frame, exactly.** The iteration never traps, and when it ends the
whole payload has been strobed exactly if it is empty, or it fits behind the title
and TXE was low after every strobe before its last byte. -/
theorem forwarded_iff (p : Profile) (tx : FlatBuffer) (rx : List UInt8) (len : Nat)
    (samples : List Levels) (htx : tx.buf.length = bufferSize) (hrx : rx.length = bufferSize)
    (hpos : 1 ≤ len) (hle : len ≤ bufferSize) (hconn : ∀ pins ∈ samples, pins.sense = true) :
    ∃ strobed w, usart1Iteration p tx rx (.ok (.complete len)) samples = .ok (strobed, w) ∧
      ∀ result, w = .done result →
        ((strobed.drop 10).take (len - 1) = rx.take (len - 1) ↔
          len = 1 ∨ (len ≤ 119 ∧
            ∀ pins ∈ (afterStrobes samples).take (len + 8), pins.txe = false)) := by
  obtain ⟨tx', hmsg, hf⟩ := writeFrame_eq (p := p) "Complete: " (filled_reset tx) hpos hle
    (by rw [hrx]; exact hle)
  rw [htx, ← frameMessage] at hf
  obtain ⟨strobed, w, hrun⟩ := exists_run_enter (frameMessage rx len) samples
  refine ⟨strobed, w, ?_, fun result hw => ?_⟩
  · simp only [usart1Iteration, usart1Message, hmsg, hf.asRef, hrun, ok_bind]
  · subst hw
    obtain ⟨m, hm, hmle, hbytes, hreach⟩ := run_enter hconn frameMessage_ne_nil hrun
    rw [hbytes, payload_take_iff hrx hpos hle]
    refine or_congr_right (and_congr_right fun hlong => ?_)
    have hlen : len + 9 ≤ (frameMessage rx len).length := by
      have hl := (frameMessage_of_le hrx hlong).length_le
      rw [List.length_append, length_title, List.length_take] at hl
      omega
    exact hreach (len + 9) (by omega) hlen

/-- The chip with a host, ready to take a byte or busy. -/
def ready : Levels := ⟨true, true, false⟩
def busy : Levels := ⟨true, true, true⟩

/-- Buffers of the firmware's size, the receive buffer full of line feeds. -/
def blankTx : FlatBuffer := .new (List.replicate bufferSize 0)
def feeds : List UInt8 := List.replicate bufferSize 10

theorem forwarded_iff_three :
    ∃ strobed w, usart1Iteration .dev blankTx feeds (.ok (.complete 3)) [ready, ready, busy] =
        .ok (strobed, w) ∧
      ∀ result, w = .done result →
        ((strobed.drop 10).take 2 = feeds.take 2 ↔
          3 = 1 ∨ (3 ≤ 119 ∧
            ∀ pins ∈ (afterStrobes [ready, ready, busy]).take 11, pins.txe = false)) :=
  forwarded_iff .dev blankTx feeds 3 [ready, ready, busy] List.length_replicate
    List.length_replicate (by decide) (by decide) (by decide)

/-- A frame of two bytes whose first strobe makes the chip busy. -/
theorem forwarded_false :
    ¬ ∀ (p : Profile) (tx : FlatBuffer) (rx : List UInt8) (len : Nat) (samples : List Levels),
      tx.buf.length = bufferSize → rx.length = bufferSize → 1 ≤ len → len ≤ bufferSize →
      (∀ pins ∈ samples, pins.sense = true) →
      ∃ strobed w, usart1Iteration p tx rx (.ok (.complete len)) samples = .ok (strobed, w) ∧
        ∀ result, w = .done result → (strobed.drop 10).take (len - 1) = rx.take (len - 1) := by
  intro h
  obtain ⟨strobed, w, heq, hall⟩ := h .dev blankTx feeds 3 [ready, busy] List.length_replicate
    List.length_replicate (by decide) (by decide) (by decide)
  have hrun : usart1Iteration .dev blankTx feeds (.ok (.complete 3)) [ready, busy] =
      .ok ([67], .done (.ok 1)) := by decide +kernel
  rw [hrun] at heq
  cases heq
  exact absurd (hall _ rfl) (by decide)

end AvrBridge.Tasks
