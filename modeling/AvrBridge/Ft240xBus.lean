import AvrBridge.Lts

/-! The data bus of the FT240, one access at a time. `read_byte` and `write_byte` switch
the direction of port C only if the cached state is not theirs already; the chip drives
the bus while RD is low and samples it while WR is low. -/

namespace AvrBridge.Ft240xBus

open Lts

/-! ## Accesses -/

inductive BusState where
  | unknown
  | input
  | output
  deriving DecidableEq, Repr

/-- Port C, the levels of the three output pins (`true` is high), the cached state, and the
byte read last. -/
structure Bus where
  ddrc : UInt8
  portc : UInt8
  rd : Bool
  wr : Bool
  siwu : Bool
  state : BusState
  data : UInt8
  deriving DecidableEq, Repr

inductive Access where
  | writeDdrc (bits : UInt8)
  | writePortc (bits : UInt8)
  | setState (state : BusState)
  | setRd (high : Bool)
  | setWr (high : Bool)
  | setSiwu (high : Bool)
  | readPinc
  | nop
  deriving DecidableEq, Repr

/-- What an access does while the pins of port C have these levels. -/
def Access.perform (b : Bus) (pinc : UInt8) : Access → Bus
  | .writeDdrc bits => { b with ddrc := bits }
  | .writePortc bits => { b with portc := bits }
  | .setState state => { b with state := state }
  | .setRd high => { b with rd := high }
  | .setWr high => { b with wr := high }
  | .setSiwu high => { b with siwu := high }
  | .readPinc => { b with data := pinc }
  | .nop => b

def readByte (state : BusState) : List Access :=
  (if state ≠ .input then [.writeDdrc 0x00, .writePortc 0x00, .setState .input] else []) ++
    [.setRd false, .nop, .readPinc, .setRd true]

def writeByte (state : BusState) (byte : UInt8) : List Access :=
  (if state ≠ .output then [.writeDdrc 0xFF, .setState .output] else []) ++
    [.writePortc byte, .setWr false, .nop, .setWr true]

/-- The pulse on SIWU; `nop2` is two cycles. -/
def flush : List Access := [.setSiwu false, .nop, .nop, .setSiwu true]

/-! ## The system -/

inductive Call where
  | readByte
  | writeByte (byte : UInt8)
  | flush
  deriving DecidableEq, Repr

/-- The accesses of a call that finds this cached state. -/
def Call.accesses (state : BusState) : Call → List Access
  | .readByte => Ft240xBus.readByte state
  | .writeByte byte => Ft240xBus.writeByte state byte
  | .flush => Ft240xBus.flush

/-- The bus, and the call in progress with the accesses it still has to make. -/
structure State where
  bus : Bus
  call : Option Call
  rest : List Access
  deriving DecidableEq, Repr

inductive Act where
  | call (c : Call)
  | access (pinc : UInt8)
  deriving DecidableEq, Repr

def step (s : State) : Act → Option State
  | .call c =>
      match s.call with
      | none => some { s with call := some c, rest := c.accesses s.bus.state }
      | some _ => none
  | .access pinc =>
      match s.rest with
      | [] => none
      | a :: rest => some ⟨a.perform s.bus pinc, if rest.isEmpty then none else s.call, rest⟩

/-- `Ft240x::new` on any port, RD and WR high. -/
def start (ddrc portc : UInt8) (siwu : Bool) (data : UInt8) : State :=
  ⟨⟨ddrc, portc, true, true, siwu, .unknown, data⟩, none, []⟩

def system (ddrc portc : UInt8) (siwu : Bool) (data : UInt8) : System State Act :=
  .ofFun (start ddrc portc siwu data) step

/-! ## One call -/

/-- One driver at every moment of a call: the chip while RD is low, the port with the byte
of the call while WR is low. -/
structure OneDriver (c : Option Call) (b : Bus) : Prop where
  read : b.rd = false → b.ddrc = 0x00 ∧ b.portc = 0x00
  write : b.wr = false → b.ddrc = 0xFF ∧ c = some (.writeByte b.portc)
  apart : ¬ (b.rd = false ∧ b.wr = false)

/-- Between calls: both strobes are high and the cached state is right. -/
structure Settled (b : Bus) : Prop where
  rd : b.rd = true
  wr : b.wr = true
  input : b.state = .input → b.ddrc = 0x00 ∧ b.portc = 0x00
  output : b.state = .output → b.ddrc = 0xFF

/-- `I` holds before each of the accesses and `Q` after the last, on any pin levels. -/
def Always (I Q : Bus → Prop) (b : Bus) : List Access → Prop
  | [] => Q b
  | a :: rest => I b ∧ ∀ pinc, Always I Q (a.perform b pinc) rest

theorem oneDriver_high {b : Bus} (c : Option Call) (hrd : b.rd = true) (hwr : b.wr = true) :
    OneDriver c b where
  read hlow := by simp [hrd] at hlow
  write hlow := by simp [hwr] at hlow
  apart := fun hlow => by simp [hrd] at hlow

theorem Settled.oneDriver {b : Bus} (h : Settled b) (c : Option Call) : OneDriver c b :=
  oneDriver_high c h.rd h.wr

/-- The strobe of RD on an input bus. -/
theorem always_read {b : Bus} (c : Option Call) (hrd : b.rd = true) (hwr : b.wr = true)
    (hddrc : b.ddrc = 0x00) (hportc : b.portc = 0x00) (hstate : b.state = .input) :
    Always (OneDriver c) Settled b [.setRd false, .nop, .readPinc, .setRd true] := by
  refine ⟨oneDriver_high c hrd hwr, fun _ => ⟨⟨?_, ?_, ?_⟩, fun _ => ⟨⟨?_, ?_, ?_⟩, fun _ =>
    ⟨⟨?_, ?_, ?_⟩, fun _ => ⟨rfl, hwr, ?_, ?_⟩⟩⟩⟩⟩
  all_goals simp [Access.perform, hwr, hddrc, hportc, hstate]

/-- The data and the strobe of WR on an output bus. -/
theorem always_write {b : Bus} (byte : UInt8) (hrd : b.rd = true) (hwr : b.wr = true)
    (hddrc : b.ddrc = 0xFF) (hstate : b.state = .output) :
    Always (OneDriver (some (.writeByte byte))) Settled b
      [.writePortc byte, .setWr false, .nop, .setWr true] := by
  refine ⟨oneDriver_high _ hrd hwr, fun _ => ⟨oneDriver_high _ hrd hwr, fun _ =>
    ⟨⟨?_, ?_, ?_⟩, fun _ => ⟨⟨?_, ?_, ?_⟩, fun _ => ⟨hrd, rfl, ?_, ?_⟩⟩⟩⟩⟩
  all_goals simp [Access.perform, hrd, hddrc, hstate]

/-- **A call** that starts on a settled bus has one driver at every moment and leaves the
bus settled. -/
theorem always_call {b : Bus} (h : Settled b) (c : Call) :
    Always (OneDriver (some c)) Settled b (c.accesses b.state) := by
  have hhigh (b' : Bus) (hrd : b'.rd = b.rd) (hwr : b'.wr = b.wr) : OneDriver (some c) b' :=
    oneDriver_high _ (hrd.trans h.rd) (hwr.trans h.wr)
  cases c with
  | readByte =>
    by_cases hstate : b.state = .input
    · rw [Call.accesses, readByte, if_neg (not_not_intro hstate), List.nil_append]
      obtain ⟨hddrc, hportc⟩ := h.input hstate
      exact always_read _ h.rd h.wr hddrc hportc hstate
    · rw [Call.accesses, readByte, if_pos hstate]
      exact ⟨hhigh _ rfl rfl, fun _ => ⟨hhigh _ rfl rfl, fun _ => ⟨hhigh _ rfl rfl, fun _ =>
        always_read _ h.rd h.wr rfl rfl rfl⟩⟩⟩
  | writeByte byte =>
    by_cases hstate : b.state = .output
    · rw [Call.accesses, writeByte, if_neg (not_not_intro hstate), List.nil_append]
      exact always_write byte h.rd h.wr (h.output hstate) hstate
    · rw [Call.accesses, writeByte, if_pos hstate]
      exact ⟨hhigh _ rfl rfl, fun _ => ⟨hhigh _ rfl rfl, fun _ =>
        always_write byte h.rd h.wr rfl rfl⟩⟩
  | flush =>
    exact ⟨hhigh _ rfl rfl, fun _ => ⟨hhigh _ rfl rfl, fun _ => ⟨hhigh _ rfl rfl, fun _ =>
      ⟨hhigh _ rfl rfl, fun _ => ⟨h.rd, h.wr, h.input, h.output⟩⟩⟩⟩⟩

/-! ## Runs -/

/-- The rest of the call in progress is safe, and between calls the bus is settled. -/
structure Sound (s : State) : Prop where
  rest : Always (OneDriver s.call) Settled s.bus s.rest
  call : s.rest = [] ↔ s.call = none

theorem accesses_ne_nil (state : BusState) (c : Call) : c.accesses state ≠ [] := by
  cases c <;> simp [Call.accesses, readByte, writeByte, flush]

theorem sound_step {s t : State} {act : Act} (h : Sound s) (hs : step s act = some t) :
    Sound t := by
  cases act with
  | call c =>
    cases hcall : s.call with
    | some c' => simp [step, hcall] at hs
    | none =>
      simp only [step, hcall] at hs
      cases hs
      have hsettled : Settled s.bus := by
        have hrest := h.rest
        rwa [h.call.mpr hcall] at hrest
      exact ⟨always_call hsettled c, by simp [accesses_ne_nil]⟩
  | access pinc =>
    cases hrest : s.rest with
    | nil => simp [step, hrest] at hs
    | cons a rest =>
      simp only [step, hrest] at hs
      cases hs
      have halways := h.rest
      rw [hrest] at halways
      have hcall : s.call ≠ none := fun hnone => by simp [h.call.mpr hnone] at hrest
      cases rest with
      | nil => exact ⟨halways.2 pinc, by simp⟩
      | cons a' rest => exact ⟨halways.2 pinc, by simp [hcall]⟩

theorem Sound.oneDriver {s : State} (h : Sound s) : OneDriver s.call s.bus := by
  have hrest := h.rest
  cases heq : s.rest with
  | nil =>
    rw [heq] at hrest
    exact hrest.oneDriver s.call
  | cons a rest =>
    rw [heq] at hrest
    exact hrest.1

/-- **One driver.** In every state of every run the port is an input without pull-ups
while RD is low, it drives the byte of the call while WR is low, the two are never low
together, and between calls the cached state is right. -/
theorem bus_has_one_driver (ddrc portc : UInt8) (siwu : Bool) (data : UInt8) (s : State)
    (h : (system ddrc portc siwu data).Reachable s) :
    (s.bus.rd = false → s.bus.ddrc = 0x00 ∧ s.bus.portc = 0x00) ∧
      (s.bus.wr = false → s.bus.ddrc = 0xFF ∧ s.call = some (.writeByte s.bus.portc)) ∧
      ¬ (s.bus.rd = false ∧ s.bus.wr = false) ∧
      (s.call = none → (s.bus.state = .input → s.bus.ddrc = 0x00 ∧ s.bus.portc = 0x00) ∧
        (s.bus.state = .output → s.bus.ddrc = 0xFF)) := by
  have hsound : Sound s := by
    refine System.Reachable.invariant (I := Sound) ?_ (fun s act t hi hs => sound_step hi hs) h
    rintro s rfl
    exact ⟨⟨rfl, rfl, by simp [start], by simp [start]⟩, by simp [start]⟩
  have hone := hsound.oneDriver
  refine ⟨hone.read, hone.write, hone.apart, fun hnone => ?_⟩
  have hrest := hsound.rest
  rw [hsound.call.mpr hnone] at hrest
  exact ⟨hrest.input, hrest.output⟩

/-- A read after a write, while RD is low. -/
def readAfterWrite : State :=
  ⟨⟨0x00, 0x00, false, true, true, .input, 0⟩, some .readByte, [.nop, .readPinc, .setRd true]⟩

theorem bus_has_one_driver_readAfterWrite :
    (readAfterWrite.bus.rd = false →
        readAfterWrite.bus.ddrc = 0x00 ∧ readAfterWrite.bus.portc = 0x00) ∧
      (readAfterWrite.bus.wr = false → readAfterWrite.bus.ddrc = 0xFF ∧
        readAfterWrite.call = some (.writeByte readAfterWrite.bus.portc)) ∧
      ¬ (readAfterWrite.bus.rd = false ∧ readAfterWrite.bus.wr = false) ∧
      (readAfterWrite.call = none →
        (readAfterWrite.bus.state = .input →
          readAfterWrite.bus.ddrc = 0x00 ∧ readAfterWrite.bus.portc = 0x00) ∧
        (readAfterWrite.bus.state = .output → readAfterWrite.bus.ddrc = 0xFF)) :=
  bus_has_one_driver 0x0F 0xF0 true 0 readAfterWrite
    (reachable_of_runFun [.call (.writeByte 65), .access 65, .access 65, .access 65, .access 65,
      .access 65, .access 65, .call .readByte, .access 0, .access 0, .access 0, .access 0]
      (.init rfl) (by decide))

end AvrBridge.Ft240xBus
