import AvrBridge.CircularRefinement
import AvrBridge.FlatRuns
import AvrBridge.UsbFt240

/-! Packets from the interrupt-driven receiver. A byte is in the chip, then in the ring, then
in the packet buffer of the current future; the loop of `poll` holds one byte in between, and
on the way out through the overflow it lets go of it. -/

namespace AvrBridge.UsbRxFuture

open Rust Lts

/-! ## The loop -/

/-- A packet buffer that has only been written, with its bytes. -/
structure Filling (f : FlatBuffer) (bytes : List UInt8) : Prop where
  good : FlatBuffer.Good ⟨f, bytes⟩
  rPos : f.rPos = 0

/-- The places left in a packet buffer. -/
def room (f : FlatBuffer) : Nat := f.buf.length - f.len

section Loop

variable {f : FlatBuffer} {bytes : List UInt8}

theorem filling_new (storage : List UInt8) : Filling (.new storage) [] :=
  ⟨FlatBuffer.good_new storage, rfl⟩

theorem Filling.isFull_iff (h : Filling f bytes) : f.isFull = true ↔ room f = 0 :=
  h.good.isFull_iff

/-- A buffer with room takes a byte behind the others. -/
theorem Filling.writeByte (h : Filling f bytes) (hroom : room f ≠ 0) (byte : UInt8) :
    ∃ g, f.writeByte byte = .ok (.ok (), g) ∧ Filling g (bytes ++ [byte]) ∧
      room g + 1 = room f := by
  have hw : f.wPos = f.rPos + f.len := h.good.wPos_eq
  have hr := h.rPos
  have hfits : f.wPos + 1 ≤ f.buf.length := by
    unfold room at hroom
    omega
  have hfull : f.isFull = false := by
    rw [Bool.eq_false_iff, ne_eq, h.isFull_iff]
    exact hroom
  have hstored : Filling (f.stored [byte]) (bytes ++ [byte]) := ⟨h.good.stored hfits, hr⟩
  refine ⟨f.stored [byte], ?_, hstored, ?_⟩
  · rw [FlatBuffer.writeByte_eq (s := ⟨f, bytes⟩) byte hfull, if_pos hfits]
  · have hlen : (f.stored [byte]).buf.length = f.buf.length := Window.length_splice hfits
    have hcount : (f.stored [byte]).len = f.len + 1 := rfl
    unfold room at hroom ⊢
    omega

end Loop

/-- How the loop ends on these bytes in the ring and this much room, and how many bytes it
puts into the packet. -/
def outcome (queue : List UInt8) (room : Nat) : Exit × Nat :=
  match (queue.take room).findIdx? (· == 0x0d) with
  | some i => (.packetDetected, i + 1)
  | none => if queue.length ≤ room then (.noByte, queue.length) else (.overFlow, room)

/-- The bytes that leave the ring: on an overflow one more than go into the packet. -/
def popped (queue : List UInt8) (room : Nat) : Nat :=
  if (outcome queue room).1 = .overFlow then (outcome queue room).2 + 1
  else (outcome queue room).2

theorem outcome_nil (room : Nat) : outcome [] room = (.noByte, 0) := by
  rw [outcome, List.take_nil]
  exact if_pos (Nat.zero_le room)

theorem outcome_no_room (byte : UInt8) (rest : List UInt8) :
    outcome (byte :: rest) 0 = (.overFlow, 0) := by
  rw [outcome, List.take_zero]
  exact if_neg (Nat.not_succ_le_zero _)

theorem outcome_return (rest : List UInt8) (room : Nat) :
    outcome (0x0d :: rest) (room + 1) = (.packetDetected, 1) := by
  rw [outcome, List.take_succ_cons]
  rfl

theorem outcome_cons {byte : UInt8} (hbyte : (byte == 0x0d) = false) (rest : List UInt8)
    (room : Nat) :
    outcome (byte :: rest) (room + 1) =
      ((outcome rest room).1, (outcome rest room).2 + 1) := by
  rw [outcome, outcome, List.take_succ_cons, List.findIdx?_cons, hbyte]
  cases (rest.take room).findIdx? (· == 0x0d) with
  | some i => rfl
  | none =>
    simp only [Bool.false_eq_true, if_false, Option.map_none, List.length_cons,
      Nat.add_le_add_iff_right]
    split <;> rfl

/-- **The loop.** With a pass for every byte in the ring and one more it comes to its end. -/
theorem receive_eq {ring : CircularBuffer} {packet : FlatBuffer} {bytes : List UInt8}
    (hring : ring.WF) (hpacket : Filling packet bytes) {passes : Nat}
    (hpasses : ring.queue.length < passes) :
    ∃ ring' packet', receive passes ring packet =
        .ok (some ((outcome ring.queue (room packet)).1, ring', packet')) ∧
      ring'.WF ∧ ring'.queue = ring.queue.drop (popped ring.queue (room packet)) ∧
      Filling packet' (bytes ++ ring.queue.take (outcome ring.queue (room packet)).2) := by
  induction passes generalizing ring packet bytes with
  | zero => cases hpasses
  | succ passes ih =>
    cases hq : ring.queue with
    | nil =>
      refine ⟨ring, packet, ?_, hring, ?_, ?_⟩
      · simp only [receive, CircularBuffer.readByte_nil hring hq, ok_bind, outcome_nil]
        rfl
      · rw [hq, List.drop_nil]
      · rw [List.take_nil, List.append_nil]
        exact hpacket
    | cons byte rest =>
      have hcount : 1 ≤ ring.count := by
        rw [← hring.length_queue, hq]
        exact Nat.succ_pos _
      have hwf := CircularBuffer.skip_wf hring hcount
      have hrest : (ring.skip 1).queue = rest := by
        rw [CircularBuffer.skip_queue hring hcount, hq, List.drop_one, List.tail_cons]
      have hread := CircularBuffer.readByte_cons hring hq
      cases hroom : room packet with
      | zero =>
        have hfull := hpacket.isFull_iff.mpr hroom
        refine ⟨ring.skip 1, packet, ?_, hwf, ?_, ?_⟩
        · simp only [receive, hread, ok_bind, hfull, Bool.not_true, Bool.false_eq_true, if_false,
            outcome_no_room]
          rfl
        · rw [hrest, popped, outcome_no_room]
          rfl
        · rw [outcome_no_room, List.take_zero, List.append_nil]
          exact hpacket
      | succ r =>
        have hne : room packet ≠ 0 := by omega
        have hnot : packet.isFull = false := by
          rw [Bool.eq_false_iff, ne_eq, hpacket.isFull_iff]
          exact hne
        obtain ⟨g, hwrite, hfilling, hleft⟩ := hpacket.writeByte hne byte
        have hr : room g = r := by omega
        cases hbyte : byte == 0x0d with
        | true =>
          have heq : byte = 0x0d := by simpa using hbyte
          refine ⟨ring.skip 1, g, ?_, hwf, ?_, ?_⟩
          · simp only [receive, hread, ok_bind, hnot, Bool.not_false, if_true, hwrite, hbyte]
            rw [heq, outcome_return]
            rfl
          · rw [hrest, heq, popped, outcome_return]
            rfl
          · rw [heq] at hfilling ⊢
            rw [outcome_return]
            exact hfilling
        | false =>
          have hshort : (ring.skip 1).queue.length < passes := by
            rw [hrest]
            rw [hq, List.length_cons] at hpasses
            omega
          obtain ⟨ring', packet', hrec, hwf', hqueue', hfilling'⟩ := ih hwf hfilling hshort
          rw [hrest, hr] at hrec hqueue' hfilling'
          have hpopped : popped (byte :: rest) (r + 1) = popped rest r + 1 := by
            unfold popped
            rw [outcome_cons hbyte]
            split <;> rfl
          refine ⟨ring', packet', ?_, hwf', ?_, ?_⟩
          · simp only [receive, hread, ok_bind, hnot, Bool.not_false, if_true, hwrite, hbyte,
              Bool.false_eq_true, if_false, hrec, outcome_cons hbyte]
          · rw [hqueue', hpopped, List.drop_succ_cons]
          · rw [outcome_cons hbyte, List.take_succ_cons]
            rw [List.append_assoc] at hfilling'
            exact hfilling'

theorem outcome_overFlow_iff (queue : List UInt8) (room : Nat) :
    (outcome queue room).1 = .overFlow ↔
      ¬ (queue.length ≤ room ∨ (0x0d : UInt8) ∈ queue.take room) := by
  have hnone : (queue.take room).findIdx? (· == 0x0d) = none ↔
      (0x0d : UInt8) ∉ queue.take room := by
    rw [List.findIdx?_eq_none_iff]
    constructor
    · intro h hmem
      exact absurd (h _ hmem) (by decide)
    · intro h x hx
      rw [beq_eq_false_iff_ne]
      rintro rfl
      exact h hx
  unfold outcome
  cases hfind : (queue.take room).findIdx? (· == 0x0d) with
  | some i =>
    rw [hfind] at hnone
    have hmem : (0x0d : UInt8) ∈ queue.take room := by
      by_contra hnot
      cases hnone.mpr hnot
    exact iff_of_false (fun h => (by cases h)) (fun h => h (.inr hmem))
  | none =>
    have hnot := hnone.mp hfind
    by_cases hle : queue.length ≤ room
    · simp [hle]
    · simp [hle, hnot]

theorem outcome_overFlow {queue : List UInt8} {room : Nat}
    (h : (outcome queue room).1 = .overFlow) : (outcome queue room).2 = room := by
  unfold outcome at h ⊢
  cases hfind : (queue.take room).findIdx? (· == 0x0d) with
  | some i =>
    rw [hfind] at h
    cases h
  | none =>
    rw [hfind] at h
    simp only at h ⊢
    split at h
    · cases h
    · rename_i hle
      rw [if_neg hle]

/-- What goes into the packet when no byte is left over: no carriage return. -/
theorem outcome_noByte {queue : List UInt8} {room : Nat} (h : (outcome queue room).1 = .noByte) :
    queue.take (outcome queue room).2 = queue ∧ (0x0d : UInt8) ∉ queue := by
  unfold outcome at h ⊢
  cases hfind : (queue.take room).findIdx? (· == 0x0d) with
  | some i =>
    rw [hfind] at h
    cases h
  | none =>
    rw [hfind] at h
    simp only at h ⊢
    split at h
    · rename_i hle
      rw [if_pos hle]
      constructor
      · exact List.take_length
      · intro hmem
        rw [List.take_of_length_le hle, List.findIdx?_eq_none_iff] at hfind
        exact absurd (hfind _ hmem) (by decide)
    · cases h

/-- What goes in when a packet is detected: up to the first carriage return. -/
theorem outcome_packetDetected {queue : List UInt8} {room : Nat}
    (h : (outcome queue room).1 = .packetDetected) :
    ∃ body, queue.take (outcome queue room).2 = body ++ [0x0d] ∧ (0x0d : UInt8) ∉ body := by
  unfold outcome at h ⊢
  cases hfind : (queue.take room).findIdx? (· == 0x0d) with
  | none =>
    rw [hfind] at h
    simp only at h
    split at h
    · cases h
    · cases h
  | some i =>
    obtain ⟨hlt, hhit, hbefore⟩ := List.findIdx?_eq_some_iff_getElem.mp hfind
    rw [List.length_take] at hlt
    have hi : i < queue.length := by omega
    have hbyte : queue[i] = 0x0d := by
      rw [List.getElem_take] at hhit
      simpa using hhit
    refine ⟨queue.take i, ?_, ?_⟩
    · show queue.take (i + 1) = _
      rw [← List.take_append_getElem hi, hbyte]
    · intro hmem
      obtain ⟨j, hj, hget⟩ := List.getElem_of_mem hmem
      rw [List.length_take] at hj
      rw [List.getElem_take] at hget
      have hmiss := hbefore j (by omega)
      rw [List.getElem_take, hget] at hmiss
      exact absurd rfl hmiss

/-! ## The system -/

/-- A future that has answered. -/
inductive Finished where
  | packet (buffer : FlatBuffer)
  | failed (e : DriverError) (future : UsbRxFuture)
  deriving DecidableEq, Repr

/-- The bytes in a packet buffer. -/
def packetBytes (f : FlatBuffer) : List UInt8 :=
  match f.asRef with
  | .ok bytes => bytes
  | .error _ => []

/-- The bytes in the packet buffer of a future. -/
def contents (future : UsbRxFuture) : List UInt8 := future.buffer.elim [] packetBytes

def Finished.contents : Finished → List UInt8
  | .packet buffer => packetBytes buffer
  | .failed _ future => future.contents

/-- The registers and the statics, the futures that have answered and the current one, and
the bytes taken from the chip. -/
structure State where
  eimsk : BitVec 8
  rx : Option RxState
  past : List Finished
  current : Option UsbRxFuture
  taken : List UInt8
  deriving DecidableEq, Repr

inductive Act where
  | int6 (byte : UInt8)
  | read (storage : List UInt8)
  | poll (waker : Waker)
  deriving DecidableEq, Repr

/-- The routine runs while it is enabled; a new future comes after the last one answered. -/
def step (s : State) : Act → Option State
  | .int6 byte =>
      if UsbFt240.rxIntEnabled s.eimsk then
        match UsbFt240.int6 s.eimsk s.rx byte with
        | .ok (took, _, eimsk, rx) =>
            let taken := if took then s.taken ++ [byte] else s.taken
            some { s with eimsk := eimsk, rx := rx, taken := taken }
        | .error _ => none
      else none
  | .read storage =>
      match s.current with
      | none => some { s with current := some (UsbDriver.read (.new storage)) }
      | some _ => none
  | .poll waker =>
      match s.current with
      | none => none
      | some future =>
          match future.poll s.eimsk s.rx waker with
          | .ok (some (.pending, eimsk, rx, future)) =>
              some { s with eimsk := eimsk, rx := rx, current := some future }
          | .ok (some (.ready (.ok packet), eimsk, rx, _)) =>
              some { s with
                eimsk := eimsk, rx := rx, current := none, past := s.past ++ [.packet packet] }
          | .ok (some (.ready (.error e), eimsk, rx, future)) =>
              some { s with
                eimsk := eimsk, rx := rx, current := none, past := s.past ++ [.failed e future] }
          | .ok none | .error _ => none

/-- The driver after `init` on a ring over this memory. -/
def start (eimsk : BitVec 8) (ptr capacity : Nat) (storage : List UInt8) : State :=
  let (eimsk, rx) := UsbDriver.init eimsk (.new ptr capacity storage)
  ⟨eimsk, rx, [], none, []⟩

def system (eimsk : BitVec 8) (ptr capacity : Nat) (storage : List UInt8) : System State Act :=
  .ofFun (start eimsk ptr capacity storage) step

/-- The bytes in the receive ring. -/
def State.ring (s : State) : List UInt8 := s.rx.elim [] (·.buffer.queue)

/-- The bytes in the packets, the failed futures and the current one. -/
def State.delivered (s : State) : List UInt8 :=
  s.past.flatMap Finished.contents ++ s.current.elim [] contents

/-- Every byte taken from the chip is in one place, and they are in order. -/
def Conserves (s : State) : Prop := s.taken = s.delivered ++ s.ring

/-- Every packet ends with its only carriage return. -/
def Packets (s : State) : Prop :=
  ∀ f, .packet f ∈ s.past → ∃ body, packetBytes f = body ++ [0x0d] ∧ (0x0d : UInt8) ∉ body

/-- The ring holds no more bytes than the packet buffer has room for, or a carriage return
among those that fit. -/
def FitsIn : Option RxState → Option UsbRxFuture → Prop
  | some rx, some ⟨some f⟩ =>
      rx.buffer.queue.length ≤ room f ∨ (0x0d : UInt8) ∈ rx.buffer.queue.take (room f)
  | _, _ => True

/-- What a poll finds in the ring goes into its packet buffer. -/
def PacketFits (s : State) : Act → Prop
  | .poll _ => FitsIn s.rx s.current
  | .int6 _ | .read _ => True

instance : ∀ (rx : Option RxState) (future : Option UsbRxFuture), Decidable (FitsIn rx future)
  | some _, some ⟨some _⟩ => inferInstanceAs (Decidable (_ ∨ _))
  | some _, some ⟨none⟩ | some _, none | none, _ => .isTrue trivial

instance (s : State) (act : Act) : Decidable (PacketFits s act) :=
  match act with
  | .poll _ => inferInstanceAs (Decidable (FitsIn s.rx s.current))
  | .int6 _ | .read _ => inferInstanceAs (Decidable True)

/-! ## What a step does -/

structure Sound (s : State) : Prop where
  rx : ∃ rx, s.rx = some rx ∧ rx.buffer.WF
  current : ∀ future, s.current = some future → ∃ f bytes, future = ⟨some f⟩ ∧
    Filling f bytes ∧ (0x0d : UInt8) ∉ bytes
  packets : Packets s

variable {s t : State}

theorem packetBytes_eq {f : FlatBuffer} {bytes : List UInt8} (h : Filling f bytes) :
    packetBytes f = bytes := by
  rw [packetBytes, h.good.asRef_eq]

theorem sound_start (eimsk : BitVec 8) (ptr : Nat) {capacity : Nat} {storage : List UInt8}
    (hcap : 1 ≤ capacity) (hlen : storage.length = capacity) :
    Sound (start eimsk ptr capacity storage) := by
  obtain ⟨cap, rfl⟩ : ∃ cap, capacity = cap + 1 := ⟨capacity - 1, by omega⟩
  constructor
  · exact ⟨_, rfl, (CircularBuffer.represents_new ptr hlen).wf⟩
  · intro future hf
    cases hf
  · intro f hf
    cases hf

section Int6

variable {rx : RxState} (eimsk : BitVec 8) (byte : UInt8)

theorem int6_full (hwf : rx.buffer.WF)
    (hfull : rx.buffer.queue.length = rx.buffer.capacity - 1) :
    UsbFt240.int6 eimsk (some rx) byte = .ok (false, rx.waker, UsbFt240.rxIntDisable eimsk,
      some ⟨rx.buffer, none, some .insufficientSpace⟩) := by
  have hbeq : (rx.buffer.queue.length == rx.buffer.capacity - 1) = true := by simpa using hfull
  simp only [UsbFt240.int6, CircularBuffer.isFull_eq hwf, ok_bind, hbeq]
  rfl

theorem int6_room (hwf : rx.buffer.WF)
    (hroom : rx.buffer.queue.length ≠ rx.buffer.capacity - 1) :
    UsbFt240.int6 eimsk (some rx) byte =
      .ok (true, rx.waker, eimsk, some ⟨rx.buffer.append [byte], none, rx.error⟩) := by
  have hbeq : (rx.buffer.queue.length == rx.buffer.capacity - 1) = false := by simpa using hroom
  simp only [UsbFt240.int6, CircularBuffer.isFull_eq hwf, ok_bind, hbeq,
    CircularBuffer.writeByte_room hwf hroom]
  rfl

end Int6

/-- `INT6` takes a byte only if the ring has room for it. -/
theorem int6_step {byte : UInt8} (h : Sound s) (hs : step s (.int6 byte) = some t) :
    Sound t ∧ t.delivered = s.delivered ∧
      ((t.taken = s.taken ∧ t.ring = s.ring) ∨
        (t.taken = s.taken ++ [byte] ∧ t.ring = s.ring ++ [byte])) := by
  obtain ⟨rx, hrx, hwf⟩ := h.rx
  have hring : s.ring = rx.buffer.queue := by rw [State.ring, hrx]; rfl
  simp only [step] at hs
  split at hs
  · by_cases hfull : rx.buffer.queue.length = rx.buffer.capacity - 1
    · simp only [hrx, int6_full s.eimsk byte hwf hfull] at hs
      cases hs
      exact ⟨⟨⟨_, rfl, hwf⟩, h.current, h.packets⟩, rfl, .inl ⟨rfl, hring.symm⟩⟩
    · have hlt := hwf.count_lt
      have hfit : rx.buffer.count + [byte].length < rx.buffer.capacity := by
        rw [hwf.length_queue] at hfull
        rw [List.length_singleton]
        omega
      simp only [hrx, int6_room s.eimsk byte hwf hfull] at hs
      cases hs
      refine ⟨⟨⟨_, rfl, CircularBuffer.append_wf hwf hfit⟩, h.current, h.packets⟩, rfl,
        .inr ⟨rfl, ?_⟩⟩
      rw [hring]
      exact CircularBuffer.append_queue hwf hfit
  · cases hs

/-- Neither test nor store of the routine traps. -/
theorem int6_isSome (h : Sound s) (henabled : UsbFt240.rxIntEnabled s.eimsk = true)
    (byte : UInt8) : (step s (.int6 byte)).isSome = true := by
  obtain ⟨rx, hrx, hwf⟩ := h.rx
  by_cases hfull : rx.buffer.queue.length = rx.buffer.capacity - 1
  · simp only [step, if_pos henabled, hrx, int6_full s.eimsk byte hwf hfull]
    rfl
  · simp only [step, if_pos henabled, hrx, int6_room s.eimsk byte hwf hfull]
    rfl

theorem read_step {storage : List UInt8} (h : Sound s) (hs : step s (.read storage) = some t) :
    Sound t ∧ t.delivered = s.delivered ∧ t.taken = s.taken ∧ t.ring = s.ring := by
  simp only [step] at hs
  split at hs
  · rename_i hnone
    cases hs
    refine ⟨⟨h.rx, ?_, h.packets⟩, ?_, rfl, rfl⟩
    · intro future hf
      cases hf
      exact ⟨_, [], rfl, filling_new storage, List.not_mem_nil⟩
    · rw [State.delivered, State.delivered, hnone]
      show s.past.flatMap Finished.contents ++ packetBytes (.new storage) = _
      rw [packetBytes_eq (filling_new storage)]
      rfl
  · cases hs

/-- What a poll moves: from the ring into the packet, and on an overflow one byte further out
of the ring. -/
structure Moves (s t : State) (f : FlatBuffer) (queue : List UInt8) : Prop where
  sound : Sound t
  taken : t.taken = s.taken
  ring : t.ring = queue.drop (popped queue (room f))
  delivered : t.delivered = s.delivered ++ queue.take (outcome queue (room f)).2

/-- The current future has answered, on this state of the driver. -/
def State.answer (s : State) (rx : RxState) (last : Finished) : State :=
  { s with
    eimsk := UsbFt240.rxIntEnable s.eimsk
    rx := some rx
    current := none
    past := s.past ++ [last] }

theorem Sound.answer (h : Sound s) {rx : RxState} (hwf : rx.buffer.WF) {last : Finished}
    (hlast : ∀ f, last = .packet f →
      ∃ body, packetBytes f = body ++ [0x0d] ∧ (0x0d : UInt8) ∉ body) :
    Sound (s.answer rx last) := by
  refine ⟨⟨rx, rfl, hwf⟩, ?_, ?_⟩
  · intro future hfuture
    cases hfuture
  · intro f hf
    rcases List.mem_append.mp hf with hf | hf
    · exact h.packets f hf
    · exact hlast f (List.mem_singleton.mp hf).symm

/-- What an answered future holds counts where the current one did. -/
theorem delivered_answer (s : State) (rx : RxState) (last : Finished) :
    (s.answer rx last).delivered = s.past.flatMap Finished.contents ++ last.contents := by
  show (s.past ++ [last]).flatMap Finished.contents ++ [] = _
  rw [List.append_nil, List.flatMap_append, List.flatMap_singleton]

theorem poll_step (h : Sound s) {future : UsbRxFuture} (hcurrent : s.current = some future)
    (waker : Waker) :
    ∃ t rx f, step s (.poll waker) = some t ∧ s.rx = some rx ∧ future = ⟨some f⟩ ∧
      Moves s t f rx.buffer.queue := by
  obtain ⟨rx, hrx, hwf⟩ := h.rx
  obtain ⟨f, bytes, rfl, hfilling, hnone⟩ := h.current future hcurrent
  have hpasses : rx.buffer.queue.length < rx.buffer.capacity + 1 := by
    rw [hwf.length_queue]
    exact Nat.lt_succ_of_lt hwf.count_lt
  obtain ⟨ring', f', hreceive, hwf', hqueue', hfilling'⟩ := receive_eq hwf hfilling hpasses
  have hbefore : s.delivered = s.past.flatMap Finished.contents ++ bytes := by
    rw [State.delivered, hcurrent]
    show _ ++ packetBytes f = _
    rw [packetBytes_eq hfilling]
  have hafter := packetBytes_eq hfilling'
  have hring : ∀ u : State, u.rx.elim [] (·.buffer.queue) = ring'.queue →
      u.ring = rx.buffer.queue.drop (popped rx.buffer.queue (room f)) := by
    intro u hu
    exact hu.trans hqueue'
  cases hexit : (outcome rx.buffer.queue (room f)).1 with
  | noByte =>
    rw [hexit] at hreceive
    obtain ⟨hall, hmiss⟩ := outcome_noByte hexit
    let u : State := { s with
      eimsk := UsbFt240.rxIntEnable s.eimsk
      rx := some { rx with buffer := ring', waker := some waker }
      current := some ⟨some f'⟩ }
    have hstep : step s (.poll waker) = some u := by
      simp only [step, hcurrent, poll, hrx, hreceive, ok_bind]
      rfl
    have hsound : Sound u := by
      refine ⟨⟨_, rfl, hwf'⟩, ?_, h.packets⟩
      intro fut hfut
      cases hfut
      refine ⟨f', _, rfl, hfilling', ?_⟩
      rw [hall, List.mem_append, not_or]
      exact ⟨hnone, hmiss⟩
    refine ⟨u, rx, f, hstep, hrx, rfl, hsound, rfl, hring u rfl, ?_⟩
    rw [hbefore, List.append_assoc, ← hafter]
    rfl
  | packetDetected =>
    rw [hexit] at hreceive
    obtain ⟨body, hbody, hmiss⟩ := outcome_packetDetected hexit
    let u := s.answer { rx with buffer := ring' } (.packet f')
    have hstep : step s (.poll waker) = some u := by
      simp only [step, hcurrent, poll, hrx, hreceive, ok_bind]
      rfl
    have hsound : Sound u := by
      apply h.answer hwf'
      rintro _ ⟨⟩
      refine ⟨bytes ++ body, ?_, ?_⟩
      · rw [hafter, hbody, List.append_assoc]
      · rw [List.mem_append, not_or]
        exact ⟨hnone, hmiss⟩
    refine ⟨u, rx, f, hstep, hrx, rfl, hsound, rfl, hring u rfl, ?_⟩
    rw [hbefore, List.append_assoc, ← hafter, delivered_answer]
    rfl
  | overFlow =>
    rw [hexit] at hreceive
    let u := s.answer { rx with buffer := ring' } (.failed .insufficientSpace ⟨some f'⟩)
    have hstep : step s (.poll waker) = some u := by
      simp only [step, hcurrent, poll, hrx, hreceive, ok_bind]
      rfl
    have hsound : Sound u := by
      apply h.answer hwf'
      intro _ hlast
      cases hlast
    refine ⟨u, rx, f, hstep, hrx, rfl, hsound, rfl, hring u rfl, ?_⟩
    rw [hbefore, List.append_assoc, ← hafter, delivered_answer]
    rfl

/-- A poll takes the bytes that it moves out of the ring unless it overflows. -/
theorem outcome_append_drop_iff (queue : List UInt8) (room : Nat) :
    queue.take (outcome queue room).2 ++ queue.drop (popped queue room) = queue ↔
      (queue.length ≤ room ∨ (0x0d : UInt8) ∈ queue.take room) := by
  have hoverflow := outcome_overFlow_iff queue room
  by_cases hexit : (outcome queue room).1 = .overFlow
  · refine iff_of_false ?_ (hoverflow.mp hexit)
    intro heq
    have hroom : room < queue.length := by
      by_contra hle
      exact hoverflow.mp hexit (.inl (Nat.not_lt.mp hle))
    have hcount : (outcome queue room).2 = room := outcome_overFlow hexit
    have hlen := congrArg List.length heq
    rw [popped, if_pos hexit, hcount, List.length_append, List.length_take,
      List.length_drop] at hlen
    omega
  · refine iff_of_true ?_ (not_not.mp (fun hnot => hexit (hoverflow.mpr hnot)))
    rw [popped, if_neg hexit, List.take_append_drop]

/-! ## Whole runs -/

theorem sound_step {act : Act} (h : Sound s) (hs : step s act = some t) : Sound t := by
  cases act with
  | int6 byte => exact (int6_step h hs).1
  | read storage => exact (read_step h hs).1
  | poll waker =>
    cases hcurrent : s.current with
    | none =>
      simp only [step, hcurrent] at hs
      cases hs
    | some future =>
      obtain ⟨u, rx, f, hstep, -, -, hmoves⟩ := poll_step h hcurrent waker
      rw [hstep] at hs
      cases hs
      exact hmoves.sound

/-- A step keeps every byte exactly if what it finds in the ring fits. -/
theorem conserves_step {act : Act} (h : Sound s) (hc : Conserves s) (hs : step s act = some t) :
    Conserves t ↔ PacketFits s act := by
  cases act with
  | int6 byte =>
    obtain ⟨-, hdelivered, ⟨htaken, hring⟩ | ⟨htaken, hring⟩⟩ := int6_step h hs
    · refine iff_of_true ?_ trivial
      rw [Conserves, htaken, hdelivered, hring]
      exact hc
    · refine iff_of_true ?_ trivial
      rw [Conserves, htaken, hdelivered, hring, hc, List.append_assoc]
  | read storage =>
    obtain ⟨-, hdelivered, htaken, hring⟩ := read_step h hs
    refine iff_of_true ?_ trivial
    rw [Conserves, htaken, hdelivered, hring]
    exact hc
  | poll waker =>
    cases hcurrent : s.current with
    | none =>
      simp only [step, hcurrent] at hs
      cases hs
    | some future =>
      obtain ⟨u, rx, f, hstep, hrx, rfl, hmoves⟩ := poll_step h hcurrent waker
      rw [hstep] at hs
      cases hs
      have hqueue : s.ring = rx.buffer.queue := by
        rw [State.ring, hrx]
        rfl
      have hfits : PacketFits s (.poll waker) ↔
          (rx.buffer.queue.length ≤ room f ∨ (0x0d : UInt8) ∈ rx.buffer.queue.take (room f)) := by
        rw [PacketFits, hrx, hcurrent]
        rfl
      rw [hfits, ← outcome_append_drop_iff, Conserves, hmoves.taken, hmoves.delivered, hmoves.ring,
        hc, hqueue, List.append_assoc, List.append_cancel_left_eq, eq_comm]

/-- In every run every packet ends with its only carriage return, whatever is lost. -/
theorem packets_of_reachable {eimsk : BitVec 8} {ptr capacity : Nat} {storage : List UInt8}
    (hcap : 1 ≤ capacity) (hlen : storage.length = capacity)
    (h : (system eimsk ptr capacity storage).Reachable s) : Packets s := by
  have hsound : Sound s := by
    refine h.invariant (I := Sound) ?_ ?_
    · rintro _ rfl
      exact sound_start eimsk ptr hcap hlen
    · intro u act v hu hv
      exact sound_step hu hv
  exact hsound.packets

/-- In a run whose polls all find what fits their packet buffer, every byte taken from the
chip is in one place and in order, and every packet ends with its only carriage return. The
step that loses a byte is a poll that finds more. -/
theorem receives_while_fits {eimsk : BitVec 8} {ptr capacity : Nat} {storage : List UInt8}
    (hcap : 2 ≤ capacity) (hlen : storage.length = capacity)
    (h : (system eimsk ptr capacity storage).ReachedWhile PacketFits s) :
    Conserves s ∧ Packets s ∧
      (∀ act t, step s act = some t → (Conserves t ↔ PacketFits s act)) ∧
      (∀ byte, UsbFt240.rxIntEnabled s.eimsk = true → (step s (.int6 byte)).isSome = true) ∧
      ∀ waker, s.current ≠ none → (step s (.poll waker)).isSome = true := by
  have hcap : 1 ≤ capacity := Nat.le_of_succ_le hcap
  have hboth : Sound s ∧ Conserves s := by
    refine h.invariant (I := fun u => Sound u ∧ Conserves u) ?_ ?_
    · rintro _ rfl
      constructor
      · exact sound_start eimsk ptr hcap hlen
      · obtain ⟨cap, rfl⟩ : ∃ cap, capacity = cap + 1 := ⟨capacity - 1, by omega⟩
        exact (CircularBuffer.represents_new ptr hlen).queue_eq.symm
    · rintro u act v ⟨hsound, hconserves⟩ hfits hv
      exact ⟨sound_step hsound hv, (conserves_step hsound hconserves hv).mpr hfits⟩
  obtain ⟨hsound, hconserves⟩ := hboth
  refine ⟨hconserves, hsound.packets, ?_, ?_, ?_⟩
  · intro act t hs
    exact conserves_step hsound hconserves hs
  · intro byte henabled
    exact int6_isSome hsound henabled byte
  · intro waker hcurrent
    obtain ⟨future, hfuture⟩ := Option.ne_none_iff_exists'.mp hcurrent
    obtain ⟨t, -, -, hstep, -, -, -⟩ := poll_step hsound hfuture waker
    exact Option.isSome_iff_exists.mpr ⟨t, hstep⟩

/-- Two packets through one ring, the second of them in two polls. -/
theorem receives_while_fits_twoPackets :
    ∃ s, (system 0 0 4 [0, 0, 0, 0]).ReachedWhile PacketFits s ∧
      s.past = [.packet ⟨0, 2, 2, [1, 0x0d]⟩] ∧ s.taken = [1, 0x0d, 2, 3] ∧ Conserves s := by
  obtain ⟨s, hs, hpast, htaken⟩ :
      ∃ s, (system 0 0 4 [0, 0, 0, 0]).ReachedWhile PacketFits s ∧
        s.past = [.packet ⟨0, 2, 2, [1, 0x0d]⟩] ∧ s.taken = [1, 0x0d, 2, 3] := by
    refine ⟨_, show (system 0 0 4 [0, 0, 0, 0]).ReachedWhile PacketFits _ from
      reachedWhile_of_runFun [.read [0, 0], .int6 1, .poll 7, .int6 0x0d, .int6 2, .poll 7,
        .read [0, 0, 0], .poll 7, .int6 3] (.init rfl) rfl, ?_, ?_⟩
    · decide
    · decide
  exact ⟨s, hs, hpast, htaken, (receives_while_fits (show 2 ≤ 4 by decide) rfl hs).1⟩

/-- Three bytes and no carriage return for a packet buffer of two: the last one is lost. -/
theorem not_conserves_overlong :
    ∃ s, (system 0 0 4 [0, 0, 0, 0]).Reachable s ∧ s.taken = [1, 2, 3] ∧ s.delivered = [1, 2] ∧
      s.ring = [] ∧ ¬ Conserves s := by
  obtain ⟨s, hs, htest⟩ := exists_reachable_of_runFun (f := step)
    [.int6 1, .int6 2, .int6 3, .read [0, 0], .poll 7]
    (fun s => s.taken == [1, 2, 3] && (s.delivered == [1, 2] && s.ring == []))
    (.init (M := system 0 0 4 [0, 0, 0, 0]) rfl) (by decide)
  rw [Bool.and_eq_true, Bool.and_eq_true, beq_iff_eq, beq_iff_eq, beq_iff_eq] at htest
  obtain ⟨htaken, hdelivered, hring⟩ := htest
  refine ⟨s, hs, htaken, hdelivered, hring, ?_⟩
  rw [Conserves, htaken, hdelivered, hring]
  decide

end AvrBridge.UsbRxFuture
