import AvrBridge.Ft240xBus

/-! The FT240 at the other end of the bus. It puts a byte on the bus while RD is low, samples the
bus once while WR is low, and senses a pulse on SIWU; the nop in each pulse is the time it has for
that. Both drivers, `ft240x.rs` and `usb_ft240.rs`, keep one order of accesses, and the chip is
told what the calls of a driver that keeps it say. -/

namespace AvrBridge

/-! ## The bus accesses of `usb_ft240.rs` -/

namespace UsbFT240

open Ft240xBus

/-- Between two calls the bus is an input with pull-ups. -/
def readByte : List Access :=
  [.writePortc 0x00, .setRd false, .nop, .readPinc, .setRd true, .writePortc 0xFF]

def writeByte (data : UInt8) : List Access :=
  [.writeDdrc 0xFF, .writePortc data, .setWr false, .nop, .setWr true, .writeDdrc 0x00,
    .writePortc 0xFF]

def flush : List Access := [.setSiwu false, .nop, .setSiwu true]

end UsbFT240

namespace Ft240Chip

open Lts Ft240xBus

inductive Driver where
  | ft240x
  | usbFt240
  deriving DecidableEq, Repr

def Driver.accesses (d : Driver) (state : BusState) : Call → List Access :=
  match d with
  | .ft240x => Call.accesses state
  | .usbFt240 => fun
      | .readByte => UsbFT240.readByte
      | .writeByte byte => UsbFT240.writeByte byte
      | .flush => UsbFT240.flush

/-- The three output pins are high. -/
structure High (b : Bus) : Prop where
  rd : b.rd = true
  wr : b.wr = true
  siwu : b.siwu = true

/-- The bus as a driver leaves it between two calls. -/
def Driver.Ready (d : Driver) (b : Bus) : Prop :=
  match d with
  | .ft240x => (b.state = .input → b.ddrc = 0x00 ∧ b.portc = 0x00) ∧
      (b.state = .output → b.ddrc = 0xFF)
  | .usbFt240 => b.ddrc = 0x00

/-! ## The chip -/

/-- What the chip is told: a byte for its FIFO, or to send the FIFO to the host. -/
inductive Told where
  | byte (byte : UInt8)
  | flush
  deriving DecidableEq, Repr

/-- `drives` is the byte it puts on the bus while RD is low; it `owes` a sample from the fall of
WR on; `settled` once there was a nop since the last fall. -/
structure Chip where
  drives : Option UInt8
  settled : Bool
  owes : Bool
  presented : List UInt8
  told : List Told
  deriving DecidableEq, Repr

/-- What an access is to the chip, whose next byte is `next`. It has sampled before WR rises if
there was time. -/
def Chip.react (k : Chip) (b : Bus) (next : UInt8) : Access → Option Chip
  | .setRd false =>
      if b.rd then
        some { k with drives := some next, settled := false, presented := k.presented ++ [next] }
      else some k
  | .setRd true => some { k with drives := none }
  | .setWr false => if b.wr then some { k with owes := true, settled := false } else some k
  | .setWr true => if k.owes && k.settled then none else some { k with owes := false }
  | .setSiwu false => if b.siwu then some { k with settled := false } else some k
  | .setSiwu true =>
      if !b.siwu && k.settled then some { k with told := k.told ++ [.flush] } else some k
  | .nop => some { k with settled := true }
  | .writeDdrc _ | .writePortc _ | .setState _ | .readPinc => some k

/-- The byte on the bus where one end drives it: the chip, once it had time and the port leaves
it the bus, or the port. -/
def levels (b : Bus) (k : Chip) : Option UInt8 :=
  match k.drives with
  | some byte => if k.settled && b.ddrc == 0x00 && b.portc == 0x00 then some byte else none
  | none => if b.ddrc == 0xFF then some b.portc else none

/-- A byte that a reader of the bus may find there. -/
def Found (b : Bus) (k : Chip) (byte : UInt8) : Prop := ∀ x, levels b k = some x → byte = x

instance (b : Bus) (k : Chip) (byte : UInt8) : Decidable (Found b k byte) :=
  match h : levels b k with
  | none => .isTrue (by simp [Found, h])
  | some x => decidable_of_iff (byte = x) (by simp [Found, h])

/-! ## The system -/

/-- The bus and the chip, the call in progress with its accesses, the finished calls and what
those of `read_byte` returned. -/
structure State where
  bus : Bus
  chip : Chip
  call : Option Call
  rest : List Access
  calls : List Call
  reads : List UInt8
  deriving DecidableEq, Repr

inductive Act where
  | call (c : Call)
  | access (pinc next : UInt8)
  | sample (byte : UInt8)
  deriving DecidableEq, Repr

/-- What a call returns, with the byte read last. -/
def returned : Call → UInt8 → List UInt8
  | .readByte, data => [data]
  | .writeByte _, _ | .flush, _ => []

def step (d : Driver) (s : State) : Act → Option State
  | .call c =>
      match s.call with
      | none => some { s with call := some c, rest := d.accesses s.bus.state c }
      | some _ => none
  | .access pinc next =>
      match s.call, s.rest with
      | some c, a :: rest =>
          if a = .readPinc → Found s.bus s.chip pinc then do
            let chip ← s.chip.react s.bus next a
            let bus := a.perform s.bus pinc
            if rest.isEmpty then
              return ⟨bus, chip, none, [], s.calls ++ [c], s.reads ++ returned c bus.data⟩
            else return { s with bus := bus, chip := chip, rest := rest }
          else none
      | _, _ => none
  | .sample byte =>
      if s.chip.owes = true ∧ Found s.bus s.chip byte then
        some { s with chip := { s.chip with
          owes := false
          told := s.chip.told ++ [.byte byte] } }
      else none

/-- The bus as `Ft240x::new` and `UsbFT240::init` leave it. -/
def Driver.Starts (d : Driver) (b : Bus) : Prop :=
  High b ∧ match d with
    | .ft240x => b.state = .unknown
    | .usbFt240 => b.ddrc = 0x00 ∧ b.portc = 0xFF

def system (d : Driver) : System State Act :=
  .ofFunFrom (fun s => ∃ b, d.Starts b ∧ s = ⟨b, ⟨none, false, false, [], []⟩, none, [], [], []⟩)
    (step d)

/-! ## The order of the accesses -/

/-- How far a call is: before its pulse, in it, in it with time passed, with the byte read, and
behind it. -/
inductive Phase where
  | before
  | low
  | settled
  | read
  | after
  deriving DecidableEq, Repr

/-- The accesses that leave the three lines alone and take no time of the chip. -/
def movesPort : Access → Bool
  | .writeDdrc _ | .writePortc _ | .setState _ => true
  | .setRd _ | .setWr _ | .setSiwu _ | .readPinc | .nop => false

/-- The fall that opens the pulse of this call, on a port that is right for it. -/
def opens (c : Call) (b : Bus) : Access → Bool
  | .setRd high => !high && c == .readByte && b.ddrc == 0x00 && b.portc == 0x00
  | .setWr high => !high && c == .writeByte b.portc && b.ddrc == 0xFF
  | .setSiwu high => !high && c == .flush
  | .writeDdrc _ | .writePortc _ | .setState _ | .readPinc | .nop => false

/-- The rise that ends the pulse of a write or of a flush. -/
def ends (c : Call) : Access → Bool
  | .setWr high => high && c != .readByte && c != .flush
  | .setSiwu high => high && c == .flush
  | .writeDdrc _ | .writePortc _ | .setState _ | .setRd _ | .readPinc | .nop => false

/-- The phase behind an access that keeps the order. The port stays as it is during a pulse, and
a pulse has a nop before its end. -/
def next (c : Call) (b : Bus) (phase : Phase) (a : Access) : Option Phase :=
  match phase with
  | .before => if movesPort a then some .before else if opens c b a then some .low else none
  | .low => if a = .nop then some .settled else none
  | .settled =>
      if a = .nop then some .settled
      else if a = .readPinc ∧ c = .readByte then some .read
      else if ends c a then some .after
      else none
  | .read => if a = .setRd true then some .after else none
  | .after => if movesPort a then some .after else none

/-- The accesses keep the order of this call to its end, whatever is read, and `Q` holds there. -/
def Keeps (c : Call) (Q : Bus → Prop) : Phase → Bus → List Access → Prop
  | phase, b, [] => phase = .after ∧ Q b
  | phase, b, a :: rest =>
      ∃ phase', next c b phase a = some phase' ∧ ∀ pinc, Keeps c Q phase' (a.perform b pinc) rest

/-- **Both drivers keep the order.** -/
theorem keeps_accesses (d : Driver) (c : Call) {b : Bus} (h : d.Ready b) :
    Keeps c d.Ready .before b (d.accesses b.state c) := by
  cases d with
  | ft240x =>
    obtain ⟨hinput, houtput⟩ := h
    cases c with
    | readByte =>
      show Keeps _ _ _ _ (Ft240xBus.readByte b.state)
      by_cases hstate : b.state = .input
      · obtain ⟨hddrc, hportc⟩ := hinput hstate
        simp [Ft240xBus.readByte, hstate, Keeps, next, movesPort, opens, ends,
          Access.perform, Driver.Ready, hddrc, hportc]
      · simp [Ft240xBus.readByte, hstate, Keeps, next, movesPort, opens, ends,
          Access.perform, Driver.Ready]
    | writeByte byte =>
      show Keeps _ _ _ _ (Ft240xBus.writeByte b.state byte)
      by_cases hstate : b.state = .output
      · have hddrc := houtput hstate
        simp [Ft240xBus.writeByte, hstate, Keeps, next, movesPort, opens, ends,
          Access.perform, Driver.Ready, hddrc]
      · simp [Ft240xBus.writeByte, hstate, Keeps, next, movesPort, opens, ends,
          Access.perform, Driver.Ready]
    | flush =>
      show Keeps _ _ _ _ Ft240xBus.flush
      have hready : Driver.ft240x.Ready b := ⟨hinput, houtput⟩
      simpa [Ft240xBus.flush, Keeps, next, movesPort, opens, ends, Access.perform,
        Driver.Ready] using hready
  | usbFt240 =>
    have hddrc : b.ddrc = 0x00 := h
    cases c with
    | readByte =>
      show Keeps _ _ _ _ UsbFT240.readByte
      simp [UsbFT240.readByte, Keeps, next, movesPort, opens, ends, Access.perform, Driver.Ready,
        hddrc]
    | writeByte byte =>
      show Keeps _ _ _ _ (UsbFT240.writeByte byte)
      simp [UsbFT240.writeByte, Keeps, next, movesPort, opens, ends, Access.perform, Driver.Ready]
    | flush =>
      show Keeps _ _ _ _ UsbFT240.flush
      simp [UsbFT240.flush, Keeps, next, movesPort, opens, ends, Access.perform, Driver.Ready,
        hddrc]

/-! ## What the chip makes of it -/

/-- What a call tells the chip. -/
def toldOf : Call → List Told
  | .readByte => []
  | .writeByte byte => [.byte byte]
  | .flush => [.flush]

/-- Between pulses: the chip was told what these calls say, and these bytes were read. -/
structure Rests (b : Bus) (k : Chip) (calls : List Call) (reads : List UInt8) : Prop where
  high : High b
  drives : k.drives = none
  owes : k.owes = false
  told : k.told = calls.flatMap toldOf
  presented : k.presented = reads

/-- The pulse of a call that comes behind these. A write has been sampled or not. -/
inductive Pulse (b : Bus) (k : Chip) (calls : List Call) (reads : List UInt8) : Call → Prop
  | rd {byte : UInt8} (rd : b.rd = false) (wr : b.wr = true) (siwu : b.siwu = true)
      (port : b.ddrc = 0x00 ∧ b.portc = 0x00) (drives : k.drives = some byte)
      (owes : k.owes = false) (told : k.told = calls.flatMap toldOf)
      (presented : k.presented = reads ++ [byte]) : Pulse b k calls reads .readByte
  | wr (rd : b.rd = true) (wr : b.wr = false) (siwu : b.siwu = true) (ddrc : b.ddrc = 0xFF)
      (drives : k.drives = none)
      (told : k.told = (if k.owes then calls else calls ++ [.writeByte b.portc]).flatMap toldOf)
      (presented : k.presented = reads) : Pulse b k calls reads (.writeByte b.portc)
  | siwu (rd : b.rd = true) (wr : b.wr = true) (siwu : b.siwu = false) (drives : k.drives = none)
      (owes : k.owes = false) (told : k.told = calls.flatMap toldOf)
      (presented : k.presented = reads) : Pulse b k calls reads .flush

/-- Where a call stands with the chip. -/
def Stands (b : Bus) (k : Chip) (calls : List Call) (reads : List UInt8) (c : Call) : Phase → Prop
  | .before => Rests b k calls reads
  | .low => Pulse b k calls reads c
  | .settled => Pulse b k calls reads c ∧ k.settled = true
  | .read => Pulse b k calls reads c ∧ c = .readByte ∧ k.drives = some b.data
  | .after => Rests b k (calls ++ [c]) (reads ++ returned c b.data)

section Steps

variable {b : Bus} {k k' : Chip} {calls : List Call} {reads : List UInt8} {c : Call}
  {phase phase' : Phase} {a : Access} {pinc byte : UInt8}

/-- The port moves outside the pulses. -/
theorem Rests.port (h : Rests b k calls reads) {b' : Bus} (hrd : b'.rd = b.rd)
    (hwr : b'.wr = b.wr) (hsiwu : b'.siwu = b.siwu) : Rests b' k calls reads :=
  ⟨⟨hrd.trans h.high.rd, hwr.trans h.high.wr, hsiwu.trans h.high.siwu⟩, h.drives, h.owes, h.told,
    h.presented⟩

theorem Rests.drives_ne (h : Rests b k calls reads) (byte : UInt8) : k.drives ≠ some byte := by
  intro hsome
  rw [h.drives] at hsome
  cases hsome

theorem Rests.owes_ne (h : Rests b k calls reads) : k.owes ≠ true := by
  rw [h.owes]
  exact Bool.false_ne_true

theorem Pulse.nop (h : Pulse b k calls reads c) :
    Pulse b { k with settled := true } calls reads c := by
  cases h with
  | rd hrd hwr hsiwu hport hdrives howes htold hpresented =>
    exact .rd hrd hwr hsiwu hport hdrives howes htold hpresented
  | wr hrd hwr hsiwu hddrc hdrives htold hpresented =>
    exact .wr hrd hwr hsiwu hddrc hdrives htold hpresented
  | siwu hrd hwr hsiwu hdrives howes htold hpresented =>
    exact .siwu hrd hwr hsiwu hdrives howes htold hpresented

theorem levels_of_drives (hdrives : k.drives = some byte) (hsettled : k.settled = true)
    (hport : b.ddrc = 0x00 ∧ b.portc = 0x00) : levels b k = some byte := by
  simp [levels, hdrives, hsettled, hport]

theorem levels_of_port (hdrives : k.drives = none) (hddrc : b.ddrc = 0xFF) :
    levels b k = some b.portc := by
  simp [levels, hdrives, hddrc]

/-- A read of the bus in a pulse on RD. -/
theorem Pulse.readPinc (h : Pulse b k calls reads .readByte) (hsettled : k.settled = true)
    (hfound : Found b k pinc) :
    Pulse { b with data := pinc } k calls reads .readByte ∧ Call.readByte = .readByte ∧
      k.drives = some pinc := by
  cases h with
  | rd hrd hwr hsiwu hport hdrives howes htold hpresented =>
    refine ⟨.rd hrd hwr hsiwu hport hdrives howes htold hpresented, rfl, ?_⟩
    rw [hdrives, hfound _ (levels_of_drives hdrives hsettled hport)]

/-- The end of a pulse on RD. -/
theorem Pulse.raiseRd (h : Pulse b k calls reads .readByte) (hdata : k.drives = some b.data) :
    Rests { b with rd := true } { k with drives := none } (calls ++ [.readByte])
      (reads ++ [b.data]) := by
  cases h with
  | rd hrd hwr hsiwu hport hdrives howes htold hpresented =>
    rw [hdrives, Option.some.injEq] at hdata
    subst hdata
    refine ⟨⟨rfl, hwr, hsiwu⟩, rfl, howes, ?_, hpresented⟩
    rw [List.flatMap_append]
    simpa [toldOf] using htold

/-- The end of a pulse on WR; the chip has sampled. -/
theorem Pulse.raiseWr (h : Pulse b k calls reads c) (hsettled : k.settled = true)
    (hwrite : c ≠ .readByte ∧ c ≠ .flush) (hreact : k.react b byte (.setWr true) = some k') :
    Rests { b with wr := true } k' (calls ++ [c]) (reads ++ returned c b.data) := by
  cases h with
  | rd => exact absurd rfl hwrite.1
  | siwu => exact absurd rfl hwrite.2
  | wr hrd hwr hsiwu hddrc hdrives htold hpresented =>
    cases howes : k.owes with
    | true => simp [Chip.react, howes, hsettled] at hreact
    | false =>
      simp only [Chip.react, howes, Bool.false_and, Bool.false_eq_true, if_false] at hreact
      cases hreact
      rw [howes, if_neg Bool.false_ne_true] at htold
      refine ⟨⟨hrd, rfl, hsiwu⟩, hdrives, rfl, htold, ?_⟩
      rw [returned, List.append_nil]
      exact hpresented

/-- The end of a pulse on SIWU; the chip has sensed it. -/
theorem Pulse.raiseSiwu (h : Pulse b k calls reads .flush) (hsettled : k.settled = true)
    (hreact : k.react b byte (.setSiwu true) = some k') :
    Rests { b with siwu := true } k' (calls ++ [.flush]) (reads ++ returned .flush b.data) := by
  cases h with
  | siwu hrd hwr hsiwu hdrives howes htold hpresented =>
    simp only [Chip.react, hsiwu, hsettled, Bool.not_false, Bool.and_self, if_true] at hreact
    cases hreact
    refine ⟨⟨hrd, hwr, rfl⟩, hdrives, howes, ?_, ?_⟩
    · rw [List.flatMap_append, ← htold]
      rfl
    · rw [returned, List.append_nil]
      exact hpresented

theorem data_of_moves (hmoves : movesPort a = true) : (a.perform b pinc).data = b.data := by
  cases a with
  | writeDdrc bits | writePortc bits | setState state => rfl
  | setRd high | setWr high | setSiwu high | readPinc | nop => cases hmoves

/-- The accesses between the pulses. -/
theorem Rests.move (h : Rests b k calls reads) (hmoves : movesPort a = true)
    (hreact : k.react b byte a = some k') : Rests (a.perform b pinc) k' calls reads := by
  cases a with
  | writeDdrc bits | writePortc bits | setState state =>
    cases hreact
    exact h.port rfl rfl rfl
  | setRd high | setWr high | setSiwu high | readPinc | nop => cases hmoves

/-- The beginning of a pulse. -/
theorem Rests.pulse (h : Rests b k calls reads) (hopens : opens c b a = true)
    (hreact : k.react b byte a = some k') : Pulse (a.perform b pinc) k' calls reads c := by
  cases a with
  | setRd high =>
    simp only [opens, Bool.and_eq_true, Bool.not_eq_true', beq_iff_eq] at hopens
    obtain ⟨⟨⟨rfl, rfl⟩, hddrc⟩, hportc⟩ := hopens
    rw [Chip.react, if_pos h.high.rd] at hreact
    cases hreact
    exact .rd rfl h.high.wr h.high.siwu ⟨hddrc, hportc⟩ rfl h.owes h.told
      (congrArg (· ++ [byte]) h.presented)
  | setWr high =>
    simp only [opens, Bool.and_eq_true, Bool.not_eq_true', beq_iff_eq] at hopens
    obtain ⟨⟨rfl, rfl⟩, hddrc⟩ := hopens
    rw [Chip.react, if_pos h.high.wr] at hreact
    cases hreact
    exact .wr h.high.rd rfl h.high.siwu hddrc h.drives h.told h.presented
  | setSiwu high =>
    simp only [opens, Bool.and_eq_true, Bool.not_eq_true', beq_iff_eq] at hopens
    obtain ⟨rfl, rfl⟩ := hopens
    rw [Chip.react, if_pos h.high.siwu] at hreact
    cases hreact
    exact .siwu h.high.rd h.high.wr rfl h.drives h.owes h.told h.presented
  | writeDdrc bits | writePortc bits | setState state | readPinc | nop => cases hopens

/-- The end of a pulse on WR or SIWU. -/
theorem Pulse.ended (h : Pulse b k calls reads c) (hsettled : k.settled = true)
    (hends : ends c a = true) (hreact : k.react b byte a = some k') :
    Rests (a.perform b pinc) k' (calls ++ [c]) (reads ++ returned c (a.perform b pinc).data) := by
  cases a with
  | setWr high =>
    simp only [ends, Bool.and_eq_true, bne_iff_ne] at hends
    obtain ⟨⟨rfl, hread⟩, hflush⟩ := hends
    exact h.raiseWr hsettled ⟨hread, hflush⟩ hreact
  | setSiwu high =>
    simp only [ends, Bool.and_eq_true, beq_iff_eq] at hends
    obtain ⟨rfl, rfl⟩ := hends
    exact h.raiseSiwu hsettled hreact
  | writeDdrc bits | writePortc bits | setState state | setRd high | readPinc | nop => cases hends

/-- **Step lemma** of the accesses. -/
theorem stands_access (h : Stands b k calls reads c phase) (hnext : next c b phase a = some phase')
    (hfound : a = .readPinc → Found b k pinc) (hreact : k.react b byte a = some k') :
    Stands (a.perform b pinc) k' calls reads c phase' := by
  cases phase with
  | before =>
    simp only [next] at hnext
    split at hnext
    · rename_i hmoves
      cases hnext
      exact Rests.move h hmoves hreact
    · split at hnext
      · rename_i hopens
        cases hnext
        exact Rests.pulse h hopens hreact
      · cases hnext
  | low =>
    simp only [next] at hnext
    split at hnext
    · rename_i hnop
      subst hnop
      cases hnext
      cases hreact
      exact ⟨Pulse.nop h, rfl⟩
    · cases hnext
  | settled =>
    obtain ⟨hpulse, hsettled⟩ := h
    simp only [next] at hnext
    split at hnext
    · rename_i hnop
      subst hnop
      cases hnext
      cases hreact
      exact ⟨hpulse.nop, rfl⟩
    · split at hnext
      · rename_i hread
        obtain ⟨rfl, rfl⟩ := hread
        cases hnext
        cases hreact
        exact hpulse.readPinc hsettled (hfound rfl)
      · split at hnext
        · rename_i hends
          cases hnext
          exact hpulse.ended hsettled hends hreact
        · cases hnext
  | read =>
    obtain ⟨hpulse, rfl, hdrives⟩ := h
    simp only [next] at hnext
    split at hnext
    · rename_i hrise
      subst hrise
      cases hnext
      cases hreact
      exact hpulse.raiseRd hdrives
    · cases hnext
  | after =>
    simp only [next] at hnext
    split at hnext
    · rename_i hmoves
      cases hnext
      have hrests : Rests (a.perform b pinc) k' (calls ++ [c]) (reads ++ returned c b.data) :=
        Rests.move h hmoves hreact
      rw [← data_of_moves hmoves] at hrests
      exact hrests
    · cases hnext

/-- The chip samples the byte of the call, whenever it does. -/
theorem Pulse.sample (h : Pulse b k calls reads c) (howes : k.owes = true)
    (hfound : Found b k byte) :
    Pulse b { k with owes := false, told := k.told ++ [.byte byte] } calls reads c := by
  cases h with
  | rd hrd hwr hsiwu hport hdrives hnone htold hpresented =>
    rw [howes] at hnone
    cases hnone
  | siwu hrd hwr hsiwu hdrives hnone htold hpresented =>
    rw [howes] at hnone
    cases hnone
  | wr hrd hwr hsiwu hddrc hdrives htold hpresented =>
    refine .wr hrd hwr hsiwu hddrc hdrives ?_ hpresented
    rw [howes, if_pos rfl] at htold
    rw [hfound _ (levels_of_port hdrives hddrc), htold, if_neg Bool.false_ne_true,
      List.flatMap_append]
    rfl

theorem stands_sample (h : Stands b k calls reads c phase) (howes : k.owes = true)
    (hfound : Found b k byte) :
    Stands b { k with owes := false, told := k.told ++ [.byte byte] } calls reads c phase := by
  cases phase with
  | before => exact absurd howes (Rests.owes_ne h)
  | low => exact Pulse.sample h howes hfound
  | settled => exact ⟨h.1.sample howes hfound, h.2⟩
  | read => exact ⟨h.1.sample howes hfound, h.2⟩
  | after => exact absurd howes (Rests.owes_ne h)

/-- What holds inside a call. -/
structure Within (b : Bus) (k : Chip) (calls : List Call) (reads : List UInt8) (c : Call) :
    Prop where
  told : k.told = calls.flatMap toldOf ∨ k.told = (calls ++ [c]).flatMap toldOf
  presented : k.presented = reads ∨ c = .readByte ∧ ∃ byte, k.presented = reads ++ [byte]
  drives : ∀ byte, k.drives = some byte → b.ddrc = 0x00 ∧ b.portc = 0x00
  owes : k.owes = true → b.ddrc = 0xFF ∧ c = .writeByte b.portc

theorem Pulse.within (h : Pulse b k calls reads c) : Within b k calls reads c := by
  cases h with
  | rd hrd hwr hsiwu hport hdrives howes htold hpresented =>
    refine ⟨.inl htold, .inr ⟨rfl, _, hpresented⟩, fun _ _ => hport, ?_⟩
    intro htrue
    rw [howes] at htrue
    cases htrue
  | wr hrd hwr hsiwu hddrc hdrives htold hpresented =>
    refine ⟨?_, .inl hpresented, ?_, fun _ => ⟨hddrc, rfl⟩⟩
    · split at htold
      · exact .inl htold
      · exact .inr htold
    · intro byte hsome
      rw [hdrives] at hsome
      cases hsome
  | siwu hrd hwr hsiwu hdrives howes htold hpresented =>
    refine ⟨.inl htold, .inl hpresented, ?_, ?_⟩
    · intro byte hsome
      rw [hdrives] at hsome
      cases hsome
    · intro htrue
      rw [howes] at htrue
      cases htrue

theorem stands_within (h : Stands b k calls reads c phase) : Within b k calls reads c := by
  cases phase with
  | before =>
    have hrests : Rests b k calls reads := h
    exact ⟨.inl hrests.told, .inl hrests.presented,
      fun byte hdrives => absurd hdrives (hrests.drives_ne byte),
      fun howes => absurd howes hrests.owes_ne⟩
  | low => exact Pulse.within h
  | settled => exact h.1.within
  | read => exact h.1.within
  | after =>
    have hrests : Rests b k (calls ++ [c]) (reads ++ returned c b.data) := h
    refine ⟨.inr hrests.told, ?_, fun byte hdrives => absurd hdrives (hrests.drives_ne byte),
      fun howes => absurd howes hrests.owes_ne⟩
    cases c with
    | readByte => exact .inr ⟨rfl, b.data, hrests.presented⟩
    | writeByte byte => exact .inl (hrests.presented.trans (List.append_nil reads))
    | flush => exact .inl (hrests.presented.trans (List.append_nil reads))

end Steps

/-! ## Runs -/

/-- Between two calls the chip was told all of them; a call in progress keeps the order. -/
def Inv (d : Driver) (s : State) : Prop :=
  match s.call with
  | none => s.rest = [] ∧ d.Ready s.bus ∧ Rests s.bus s.chip s.calls s.reads
  | some c => s.rest ≠ [] ∧ ∃ phase, Keeps c d.Ready phase s.bus s.rest ∧
      Stands s.bus s.chip s.calls s.reads c phase

theorem inv_step {d : Driver} {s t : State} {act : Act} (h : Inv d s)
    (hs : step d s act = some t) : Inv d t := by
  cases act with
  | call c =>
    cases hcall : s.call with
    | some c' => simp [step, hcall] at hs
    | none =>
      simp only [Inv, hcall] at h
      simp only [step, hcall] at hs
      cases hs
      obtain ⟨-, hready, hrests⟩ := h
      have hkeeps := keeps_accesses d c hready
      refine ⟨?_, .before, hkeeps, hrests⟩
      intro hnil
      change d.accesses s.bus.state c = [] at hnil
      rw [hnil] at hkeeps
      cases hkeeps.1
  | access pinc next =>
    cases hcall : s.call with
    | none => simp [step, hcall] at hs
    | some c =>
      cases hrest : s.rest with
      | nil => simp [step, hcall, hrest] at hs
      | cons a rest =>
        simp only [Inv, hcall, hrest] at h
        obtain ⟨-, phase, hkeeps, hstands⟩ := h
        obtain ⟨phase', hnext, hkeeps⟩ := hkeeps
        simp only [step, hcall, hrest] at hs
        split at hs
        · rename_i hfound
          obtain ⟨chip, hreact, hs⟩ := Option.bind_eq_some_iff.mp hs
          have hstands' := stands_access hstands hnext hfound hreact
          cases rest with
          | nil =>
            cases hs
            obtain ⟨rfl, hready⟩ := hkeeps pinc
            exact ⟨rfl, hready, hstands'⟩
          | cons a' rest =>
            cases hs
            simp only [Inv]
            exact ⟨nofun, phase', hkeeps pinc, hstands'⟩
        · cases hs
  | sample byte =>
    simp only [step] at hs
    split at hs
    · rename_i hsample
      obtain ⟨howes, hfound⟩ := hsample
      cases hs
      cases hcall : s.call with
      | none =>
        simp only [Inv, hcall] at h
        exact absurd howes h.2.2.owes_ne
      | some c =>
        simp only [Inv, hcall] at h ⊢
        obtain ⟨hrest, phase, hkeeps, hstands⟩ := h
        exact ⟨hrest, phase, hkeeps, stands_sample hstands howes hfound⟩
    · cases hs

theorem inv_of_reachable {d : Driver} {s : State} (h : (system d).Reachable s) : Inv d s := by
  refine System.Reachable.invariant (I := Inv d) ?_ (fun s act t hi hs => inv_step hi hs) h
  rintro s ⟨b, ⟨hhigh, hstate⟩, rfl⟩
  refine ⟨rfl, ?_, hhigh, rfl, rfl, rfl, rfl⟩
  cases d with
  | ft240x =>
    have hunknown : b.state = .unknown := hstate
    constructor
    · intro hinput
      rw [hunknown] at hinput
      cases hinput
    · intro houtput
      rw [hunknown] at houtput
      cases houtput
  | usbFt240 => exact hstate.1

/-- **The chip is told what the calls say.** With either driver, at whichever moment of a pulse
the chip samples the bus: between two calls it was told the bytes of the writes and the flushes in
the order of the calls, and the reads have returned the bytes it presented; inside a call it is
at most this call ahead. Nobody else drives the bus while it does, and the port drives it while it
has a sample to take. -/
theorem chip_is_told (d : Driver) (s : State) (h : (system d).Reachable s) :
    (s.call = none → s.chip.told = s.calls.flatMap toldOf ∧ s.chip.presented = s.reads) ∧
    (∀ c, s.call = some c →
      (s.chip.told = s.calls.flatMap toldOf ∨ s.chip.told = (s.calls ++ [c]).flatMap toldOf) ∧
      (s.chip.presented = s.reads ∨
        c = .readByte ∧ ∃ byte, s.chip.presented = s.reads ++ [byte])) ∧
    (∀ byte, s.chip.drives = some byte → s.bus.ddrc = 0x00 ∧ s.bus.portc = 0x00) ∧
    (s.chip.owes = true → s.bus.ddrc = 0xFF ∧ s.call = some (.writeByte s.bus.portc)) := by
  have hinv := inv_of_reachable h
  cases hcall : s.call with
  | none =>
    simp only [Inv, hcall] at hinv
    obtain ⟨-, -, hrests⟩ := hinv
    refine ⟨fun _ => ⟨hrests.told, hrests.presented⟩, nofun, ?_, ?_⟩
    · intro byte hdrives
      exact absurd hdrives (hrests.drives_ne byte)
    · intro howes
      exact absurd howes hrests.owes_ne
  | some c =>
    simp only [Inv, hcall] at hinv
    obtain ⟨-, phase, -, hstands⟩ := hinv
    have hwithin := stands_within hstands
    refine ⟨nofun, ?_, hwithin.drives, ?_⟩
    · intro c' hc
      cases hc
      exact ⟨hwithin.told, hwithin.presented⟩
    · intro howes
      exact ⟨(hwithin.owes howes).1, congrArg some (hwithin.owes howes).2⟩

/-- The accesses of a call, with time for the chip to sample. -/
def writeThenRead : List Act :=
  [.call (.writeByte 65), .access 0 0, .access 0 0, .access 0 0, .sample 65, .access 0 0,
    .access 0 0, .access 0 0, .access 0 0,
    .call .readByte, .access 0 0, .access 0 66, .access 0 0, .access 66 0, .access 0 0, .access 0 0]

def beforeCalls : State :=
  ⟨⟨0x00, 0xFF, true, true, true, .unknown, 0⟩, ⟨none, false, false, [], []⟩, none, [], [], []⟩

theorem chip_is_told_writeThenRead :
    ∃ s, (system .usbFt240).Reachable s ∧ s.call = none ∧ s.chip.told = [.byte 65] ∧
      s.reads = [66] ∧
      (s.call = none → s.chip.told = s.calls.flatMap toldOf ∧ s.chip.presented = s.reads) ∧
      (∀ c, s.call = some c →
        (s.chip.told = s.calls.flatMap toldOf ∨ s.chip.told = (s.calls ++ [c]).flatMap toldOf) ∧
        (s.chip.presented = s.reads ∨
          c = .readByte ∧ ∃ byte, s.chip.presented = s.reads ++ [byte])) ∧
      (∀ byte, s.chip.drives = some byte → s.bus.ddrc = 0x00 ∧ s.bus.portc = 0x00) ∧
      (s.chip.owes = true → s.bus.ddrc = 0xFF ∧ s.call = some (.writeByte s.bus.portc)) := by
  obtain ⟨s, hs, htest⟩ := exists_reachable_of_runFun writeThenRead
    (fun s => s.call == none && s.chip.told == [.byte 65] && s.reads == [66])
    (show (system .usbFt240).Reachable beforeCalls from
      .init ⟨_, ⟨⟨rfl, rfl, rfl⟩, rfl, rfl⟩, rfl⟩) (by decide +kernel)
  simp only [Bool.and_eq_true, beq_iff_eq] at htest
  exact ⟨s, hs, htest.1.1, htest.1.2, htest.2, chip_is_told .usbFt240 s hs⟩

end Ft240Chip

end AvrBridge
