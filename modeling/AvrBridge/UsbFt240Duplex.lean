import AvrBridge.Mask
import AvrBridge.UsbFt240Packets
import AvrBridge.UsbFt240Tx

/-! Both halves of `usb_ft240.rs` at once, on one pair of interrupt registers and with the two
lines of the chip. A line rises when the chip is strobed and falls when it is ready again; its
fall sets the flag of its interrupt, masked or not, and the flag goes when the routine is
entered. -/

namespace AvrBridge.UsbDuplex

open Rust Lts FlatBuffer UsbFt240

/-- A buffer as the methods of `FlatBuffer` leave it. -/
structure Outgoing where
  flat : FlatBuffer
  wPos_eq : flat.wPos = flat.rPos + flat.len
  wPos_le : flat.wPos ≤ flat.buf.length
  deriving DecidableEq

def Outgoing.contents (b : Outgoing) : List UInt8 := (b.flat.buf.drop b.flat.rPos).take b.flat.len

theorem Outgoing.good (b : Outgoing) : Good ⟨b.flat, b.contents⟩ :=
  good_of_eq b.wPos_eq b.wPos_le rfl

/-- A packet on its way: the bytes handed to `write`, the bytes strobed with the level of TXE
before the strobe, and the pulses on SIWU. -/
structure Packet where
  contents : List UInt8
  strobed : List (UInt8 × Bool)
  flushes : Nat
  deriving DecidableEq, Repr

def Packet.bytes (p : Packet) : List UInt8 := p.strobed.map Prod.fst

/-- What is to be strobed. If TXE is high before the first strobe there is a star at the end. -/
def Packet.submitted (p : Packet) : List UInt8 :=
  p.contents ++ if p.strobed.head?.any Prod.snd then [0x2a] else []

def Packet.strobe (p : Packet) (data : UInt8) (txe : Bool) : Packet :=
  { p with strobed := p.strobed ++ [(data, txe)] }

def Packet.flush (p : Packet) : Packet := { p with flushes := p.flushes + 1 }

/-- An answer: the write that returned the future, the last write when it was polled, both by
number, and what it said. -/
structure Answer where
  future : Nat
  last : Nat
  result : Except DriverError FlatBuffer
  deriving DecidableEq

/-- The receiving half, which keeps EIMSK, EIFR, the levels of the lines (`true` is high), and
the transmitting half: its state, the packets of the earlier writes, the one of the last, the
answers of the futures, those that wait with their wakers, and the wakers woken. -/
structure State where
  receive : UsbRxFuture.State
  eifr : BitVec 8
  rxf : Bool
  txe : Bool
  tx : Option TxState
  past : List Packet
  packet : Option Packet
  answers : List Answer
  pending : List (Nat × Waker)
  woken : List Waker
  deriving DecidableEq

/-- The packets of all writes, by number. -/
def State.packets (s : State) : List Packet := s.past ++ s.packet.toList

def State.ext (s : State) : ExtInt := ⟨s.receive.eimsk, s.eifr⟩

/-- The transmitting half has written the registers. -/
def State.setExt (s : State) (e : ExtInt) : State :=
  { s with receive := { s.receive with eimsk := e.eimsk }, eifr := e.eifr }

/-- The chip does what it is called for; a strobe raises TXE. -/
def State.call (s : State) : Option ChipCall → State
  | none => s
  | some (.writeByte data) =>
      { s with txe := true, packet := s.packet.map fun p => p.strobe data s.txe }
  | some .flush => { s with packet := s.packet.map Packet.flush }

/-- Future number `n` waits no more. -/
def State.polled (s : State) (n : Nat) : List (Nat × Waker) := s.pending.filter fun x => x.1 != n

inductive Act where
  | receive (act : UsbRxFuture.Act)
  | rxfFalls
  | txeFalls
  | write (buffer : Outgoing)
  | poll (future : Nat) (waker : Waker)
  | int5
  deriving DecidableEq

def step (s : State) : Act → Option State
  | .receive act =>
      match act with
      | .int6 _ =>
          -- whether or not `rx_int_disable` clears the flag again, the entry has
          if s.eifr &&& rxExtInt6 = 0 then none
          else (UsbRxFuture.step s.receive act).map fun receive => { s with
            receive := receive
            eifr := s.eifr &&& ~~~rxExtInt6
            rxf := s.rxf || receive.taken != s.receive.taken }
      | .read _ | .poll _ =>
          (UsbRxFuture.step s.receive act).map fun receive => { s with receive := receive }
  | .rxfFalls =>
      if s.rxf then some { s with rxf := false, eifr := s.eifr ||| rxExtInt6 } else none
  | .txeFalls =>
      if s.txe then some { s with txe := false, eifr := s.eifr ||| txExtInt5 } else none
  | .write buffer =>
      match UsbDriver.write s.txe s.ext buffer.flat with
      | .ok (call, e, tx) =>
          some ({ s.setExt e with
            tx := tx
            past := s.packets
            packet := some ⟨buffer.contents, [], 0⟩ }.call call)
      | .error _ => none
  | .poll future waker =>
      -- a future has no field, so every one of them asks about the state that is there
      if future < s.packets.length then
        match UsbTxFuture.poll s.tx waker with
        | (.pending, tx) =>
            some { s with tx := tx, pending := (future, waker) :: s.polled future }
        | (.ready result, tx) => some { s with
            tx := tx
            answers := s.answers ++ [⟨future, s.packets.length - 1, result⟩]
            pending := s.polled future }
      else none
  | .int5 =>
      if txIntEnabled s.ext = true ∧ s.eifr &&& txExtInt5 ≠ 0 then
        match UsbFt240.int5 (s.ext.writeEifr txExtInt5) s.tx with
        | .ok (call, woken, e, tx) =>
            some ({ s.setExt e with tx := tx, woken := s.woken ++ woken.toList }.call call)
        | .error _ => none
      else none

/-- After `UsbFT240::init` and `UsbDriver::init`, whatever the registers and the lines were. -/
def start (e : ExtInt) (rxf txe : Bool) (ptr capacity : Nat) (storage : List UInt8) : State :=
  let e := txIntSetup (rxIntSetup e)
  ⟨UsbRxFuture.start e.eimsk ptr capacity storage, e.eifr, rxf, txe, none, [], none, [], [], []⟩

def system (e : ExtInt) (rxf txe : Bool) (ptr capacity : Nat) (storage : List UInt8) :
    System State Act :=
  .ofFun (start e rxf txe ptr capacity storage) step

/-! ## Registers -/

theorem rxExtInt6_eq : rxExtInt6 = BitVec.twoPow 8 6 := by decide
theorem txExtInt5_eq : txExtInt5 = BitVec.twoPow 8 5 := by decide

/-- `INT5` is not masked. -/
def State.mask5 (s : State) : Bool := s.receive.eimsk.getLsbD 5

/-- The flag of `INT5`. -/
def State.flag5 (s : State) : Bool := s.eifr.getLsbD 5

def State.mask6 (s : State) : Bool := s.receive.eimsk.getLsbD 6
def State.flag6 (s : State) : Bool := s.eifr.getLsbD 6

section Registers

variable (e : ExtInt) (eimsk : BitVec 8)

theorem txIntEnabled_iff : txIntEnabled e = true ↔ e.eimsk.getLsbD 5 = true := by
  have hzero := Mask.and_twoPow_eq_zero_iff (m := e.eimsk) (i := 5) (by decide)
  rw [txIntEnabled, txExtInt5_eq, decide_eq_true_iff, ne_eq, hzero, Bool.not_eq_false]

theorem flag5_iff (eifr : BitVec 8) : eifr &&& txExtInt5 ≠ 0 ↔ eifr.getLsbD 5 = true := by
  rw [txExtInt5_eq, ne_eq, Mask.and_twoPow_eq_zero_iff (by decide), Bool.not_eq_false]

theorem flag6_iff (eifr : BitVec 8) : eifr &&& rxExtInt6 ≠ 0 ↔ eifr.getLsbD 6 = true := by
  rw [rxExtInt6_eq, ne_eq, Mask.and_twoPow_eq_zero_iff (by decide), Bool.not_eq_false]

theorem getLsbD_txIntEnable (i : Nat) :
    (txIntEnable e).eimsk.getLsbD i = (e.eimsk.getLsbD i || decide (5 = i)) := by
  rw [txIntEnable, txExtInt5_eq]
  exact Mask.getLsbD_add (by decide) i

theorem getLsbD_txIntDisable (i : Nat) :
    (txIntDisable e).eimsk.getLsbD i = (e.eimsk.getLsbD i && decide (5 ≠ i)) ∧
      (txIntDisable e).eifr.getLsbD i = (e.eifr.getLsbD i && decide (5 ≠ i)) := by
  rw [txIntDisable, txExtInt5_eq]
  exact ⟨Mask.getLsbD_remove (by decide) i, Mask.getLsbD_remove (by decide) i⟩

theorem getLsbD_rxIntEnable (i : Nat) :
    (rxIntEnable eimsk).getLsbD i = (eimsk.getLsbD i || decide (6 = i)) := by
  rw [rxIntEnable, rxExtInt6_eq]
  exact Mask.getLsbD_add (by decide) i

theorem getLsbD_rxIntDisable (i : Nat) :
    (rxIntDisable eimsk).getLsbD i = (eimsk.getLsbD i && decide (6 ≠ i)) := by
  rw [rxIntDisable, rxExtInt6_eq]
  exact Mask.getLsbD_remove (by decide) i

end Registers

/-! ## What the receiving half does -/

/-- A poll of a future that has its buffer, on a driver that has been initialised. -/
theorem poll_enables {eimsk eimsk' : BitVec 8} {rx : RxState} {f : FlatBuffer} {waker : Waker}
    {answer : Poll (Except DriverError FlatBuffer)} {state : Option RxState}
    {future : UsbRxFuture}
    (h : UsbRxFuture.poll eimsk (some rx) ⟨some f⟩ waker =
      .ok (some (answer, eimsk', state, future))) : eimsk' = rxIntEnable eimsk := by
  simp only [UsbRxFuture.poll] at h
  obtain ⟨received, -, h⟩ := bind_eq_ok.mp h
  cases received with
  | none => cases h
  | some out =>
    obtain ⟨exit, ring, packet⟩ := out
    cases exit with
    | noByte | packetDetected | overFlow =>
      cases h
      rfl

/-- The ring of the driver has no place left. -/
def RingFull (s : UsbRxFuture.State) : Prop :=
  ∃ rx, s.rx = some rx ∧ rx.buffer.queue.length = rx.buffer.capacity - 1

/-- What a step of the receiving half makes of EIMSK and of the bytes taken. -/
def Effect (s : UsbRxFuture.State) (act : UsbRxFuture.Act) (t : UsbRxFuture.State) : Prop :=
  match act with
  | .int6 byte =>
      (RingFull s ∧ t.eimsk = rxIntDisable s.eimsk ∧ t.taken = s.taken) ∨
        (¬ RingFull s ∧ t.eimsk = s.eimsk ∧ t.taken = s.taken ++ [byte])
  | .read _ => t.eimsk = s.eimsk ∧ t.taken = s.taken
  | .poll _ => t.eimsk = rxIntEnable s.eimsk ∧ t.taken = s.taken

theorem receive_effect {s t : UsbRxFuture.State} {act : UsbRxFuture.Act}
    (h : UsbRxFuture.Sound s) (hs : UsbRxFuture.step s act = some t) : Effect s act t := by
  obtain ⟨rx, hrx, hwf⟩ := h.rx
  cases act with
  | int6 byte =>
    simp only [UsbRxFuture.step] at hs
    split at hs
    · by_cases hfull : rx.buffer.queue.length = rx.buffer.capacity - 1
      · simp only [hrx, UsbRxFuture.int6_full s.eimsk byte hwf hfull] at hs
        cases hs
        exact .inl ⟨⟨rx, hrx, hfull⟩, rfl, rfl⟩
      · simp only [hrx, UsbRxFuture.int6_room s.eimsk byte hwf hfull] at hs
        cases hs
        refine .inr ⟨?_, rfl, rfl⟩
        rintro ⟨rx', hrx', hfull'⟩
        rw [hrx] at hrx'
        cases hrx'
        exact hfull hfull'
    · cases hs
  | read storage =>
    simp only [UsbRxFuture.step] at hs
    split at hs
    · cases hs
      exact ⟨rfl, rfl⟩
    · cases hs
  | poll waker =>
    cases hcurrent : s.current with
    | none =>
      simp only [UsbRxFuture.step, hcurrent] at hs
      cases hs
    | some future =>
      obtain ⟨f, bytes, rfl, -, -⟩ := h.current future hcurrent
      simp only [UsbRxFuture.step, hcurrent, hrx] at hs
      split at hs
      case h_1 hpoll | h_2 hpoll | h_3 hpoll =>
        cases hs
        exact ⟨poll_enables hpoll, rfl⟩
      case h_4 | h_5 => cases hs

/-! ## What the transmitting half does -/

/-- How far the packet is when its state holds this result and these bytes are left. -/
def Stage (p : Packet) (unread : List UInt8) : Option (Except DriverError Unit) → Prop
  | none => p.strobed ≠ [] ∧ p.flushes = 0
  | some (.ok ()) => unread = [] ∧ p.strobed ≠ [] ∧ p.flushes = 1
  | some (.error e) => e = .bufferEmpty ∧ p.submitted = [] ∧ p.strobed = [] ∧ p.flushes = 0

/-- What has been strobed of the packet and what is left in its buffer are the packet. -/
structure Carried (tx : TxState) (p : Packet) (unread : List UInt8) : Prop where
  good : Good ⟨tx.buffer, unread⟩
  conserved : p.bytes ++ unread = p.submitted
  stage : Stage p unread tx.result

/-- What the answer of a future says of its packet. -/
def Answered (p : Packet) : Except DriverError FlatBuffer → Prop
  | .ok _ => p.submitted ≠ [] ∧ p.bytes = p.submitted ∧ p.flushes = 1
  | .error e => e = .bufferEmpty ∧ p.submitted = [] ∧ p.strobed = [] ∧ p.flushes = 0

theorem Answered.ne_missing {p : Packet} {result : Except DriverError FlatBuffer}
    (h : Answered p result) : result ≠ .error .missingGlobalState := by
  rintro rfl
  cases h.1

section Transmit

variable {tx : TxState} {p : Packet} {unread : List UInt8}

theorem Packet.bytes_strobe (p : Packet) (data : UInt8) (txe : Bool) :
    (p.strobe data txe).bytes = p.bytes ++ [data] := List.map_append ..

/-- The first strobe decides on the star. -/
theorem Packet.submitted_strobe (h : p.strobed ≠ []) (data : UInt8) (txe : Bool) :
    (p.strobe data txe).submitted = p.submitted := by
  obtain ⟨first, rest, hcons⟩ := List.exists_cons_of_ne_nil h
  simp only [Packet.submitted, Packet.strobe, hcons, List.cons_append, List.head?_cons]

/-- The packet behind the first strobe of `write`. -/
theorem Packet.submitted_first (contents : List UInt8) (byte : UInt8) (txe : Bool) :
    (Packet.strobe ⟨contents, [], 0⟩ byte txe).submitted =
      contents ++ if txe then [0x2a] else [] := rfl

theorem Carried.unique {rest : List UInt8} (h : Carried tx p unread) (h' : Carried tx p rest) :
    unread = rest := List.append_cancel_left (h.conserved.trans h'.conserved.symm)

theorem Carried.begun (h : Carried tx p unread) : p.bytes <+: p.submitted :=
  ⟨unread, h.conserved⟩

/-- The next byte of a packet in flight. -/
theorem Carried.strobe {byte : UInt8} {rest : List UInt8} {buffer : FlatBuffer}
    (h : Carried tx p (byte :: rest)) (hresult : tx.result = none) (hgood : Good ⟨buffer, rest⟩)
    (txe : Bool) : Carried { tx with buffer := buffer } (p.strobe byte txe) rest := by
  have hstage := h.stage
  rw [hresult] at hstage
  constructor
  · exact hgood
  · rw [Packet.bytes_strobe, Packet.submitted_strobe hstage.1, ← h.conserved, List.append_assoc]
    rfl
  · show Stage _ _ tx.result
    rw [hresult]
    exact ⟨List.append_ne_nil_of_right_ne_nil _ (List.cons_ne_nil _ _), hstage.2⟩

/-- The end of a packet in flight. -/
theorem Carried.flush (h : Carried tx p []) (hresult : tx.result = none) :
    Carried ⟨tx.buffer, some (.ok ()), none⟩ p.flush [] := by
  have hstage := h.stage
  rw [hresult] at hstage
  exact ⟨h.good, h.conserved, rfl, hstage.1, congrArg (· + 1) hstage.2⟩

theorem Carried.answered (h : Carried tx p unread) {result : Except DriverError Unit}
    (hresult : tx.result = some result) : Answered p (result.map fun _ => tx.buffer) := by
  have hstage := h.stage
  rw [hresult] at hstage
  cases result with
  | ok _ =>
    obtain ⟨rfl, hne, hflushes⟩ := hstage
    have hconserved := h.conserved
    rw [List.append_nil] at hconserved
    refine ⟨?_, hconserved, hflushes⟩
    rw [← hconserved, Packet.bytes, ne_eq, List.map_eq_nil_iff]
    exact hne
  | error e => exact hstage

theorem readByte_of_good_nil {f : FlatBuffer} (h : Good ⟨f, []⟩) :
    f.readByte = .ok (.error .bufferEmpty, f) := by
  have hlen : f.len = 0 := h.length_unread.symm
  rw [readByte, isEmpty, hlen]
  rfl

/-- `INT5` on a packet in flight: the next byte, or the end of the packet. -/
theorem int5_spec (e : ExtInt) (h : Carried tx p unread) :
    (∃ byte rest buffer, unread = byte :: rest ∧ Good ⟨buffer, rest⟩ ∧
      UsbFt240.int5 e (some tx) =
        .ok (some (.writeByte byte), none, e, some { tx with buffer := buffer })) ∨
    (unread = [] ∧ UsbFt240.int5 e (some tx) =
      .ok (some .flush, tx.waker, txIntDisable e, some ⟨tx.buffer, some (.ok ()), none⟩)) := by
  cases hu : unread with
  | nil =>
    have hgood := h.good
    rw [hu] at hgood
    refine .inr ⟨rfl, ?_⟩
    simp only [UsbFt240.int5, readByte_of_good_nil hgood, ok_bind]
    rfl
  | cons byte rest =>
    obtain ⟨hread, hgood⟩ := h.good.readByte_eq hu
    refine .inl ⟨byte, rest, _, rfl, hgood, ?_⟩
    simp only [UsbFt240.int5, hread, ok_bind]
    rfl

/-- There is no place for the star. -/
def Outgoing.Traps (b : Outgoing) (txe : Bool) : Prop :=
  txe = true ∧ b.contents ≠ [] ∧ b.flat.wPos = b.flat.buf.length

/-- **`write`** traps, finds nothing to send, or strobes the first byte. -/
theorem write_spec (b : Outgoing) (txe : Bool) (e : ExtInt) :
    (b.Traps txe ∧ ∃ panic, UsbDriver.write txe e b.flat = .error panic) ∨
    (¬ b.Traps txe ∧ b.contents = [] ∧ UsbDriver.write txe e b.flat =
      .ok (none, txIntDisable e, some (.error b.flat .bufferEmpty))) ∨
    (¬ b.Traps txe ∧ ∃ byte rest buffer, b.contents = byte :: rest ∧
      Good ⟨buffer, rest ++ if txe then [0x2a] else []⟩ ∧
      UsbDriver.write txe e b.flat =
        .ok (some (.writeByte byte), txIntEnable e, some (.new buffer))) := by
  have hgood := b.good
  cases hu : b.contents with
  | nil =>
    rw [hu] at hgood
    refine .inr (.inl ⟨fun h => h.2.1 hu, rfl, ?_⟩)
    simp only [UsbDriver.write, readByte_of_good_nil hgood, ok_bind]
    rfl
  | cons byte rest =>
    rw [hu] at hgood
    obtain ⟨hread, hrest⟩ := hgood.readByte_eq rfl
    obtain ⟨g, hg⟩ : ∃ g : FlatBuffer,
      g = { b.flat with rPos := b.flat.rPos + 1, len := b.flat.len - 1 } := ⟨_, rfl⟩
    change b.flat.readByte = .ok (.ok byte, _) at hread
    rw [← hg] at hread
    change Good ⟨_, rest⟩ at hrest
    rw [← hg] at hrest
    have hw : g.wPos = b.flat.wPos := by rw [hg]
    have hb : g.buf = b.flat.buf := by rw [hg]
    cases txe with
    | false =>
      refine .inr (.inr ⟨fun h => Bool.false_ne_true h.1, byte, rest, g, rfl, ?_, ?_⟩)
      · rw [if_neg Bool.false_ne_true, List.append_nil]
        exact hrest
      · simp only [UsbDriver.write, hread, ok_bind]
        rfl
    | true =>
      have hpos : 1 ≤ b.flat.len := by
        have := hgood.length_unread
        rw [List.length_cons] at this
        exact this ▸ Nat.le_add_left ..
      have hfull : g.isFull = false := by
        have hle := b.wPos_le
        have heq := b.wPos_eq
        rw [isFull, hb, show g.len = b.flat.len - 1 by rw [hg], beq_eq_false_iff_ne]
        omega
      have hwrite := writeByte_eq (s := ⟨g, rest⟩) 0x2a hfull
      by_cases hroom : b.flat.wPos + 1 ≤ b.flat.buf.length
      · change g.writeByte 0x2a = _ at hwrite
        rw [if_pos (by rw [hw, hb]; exact hroom)] at hwrite
        refine .inr (.inr ⟨fun h => ?_, byte, rest, g.stored [0x2a], rfl, ?_, ?_⟩)
        · have := h.2.2
          omega
        · rw [if_pos rfl]
          exact hrest.stored (by rw [hw, hb]; exact hroom)
        · simp only [UsbDriver.write, hread, ok_bind, if_true, hwrite]
          rfl
      · change g.writeByte 0x2a = _ at hwrite
        rw [if_neg (by rw [hw, hb]; exact hroom)] at hwrite
        refine .inl ⟨⟨rfl, by rw [hu]; exact List.cons_ne_nil _ _, ?_⟩, .indexOutOfBounds, ?_⟩
        · have := b.wPos_le
          omega
        · simp only [UsbDriver.write, hread, ok_bind, if_true, hwrite]
          rfl

end Transmit

end AvrBridge.UsbDuplex
