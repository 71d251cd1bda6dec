import AvrBridge.UsbFt240Futures

/-! The two lines of the chip under `usb_ft240.rs`. Both interrupts wait for a falling edge, and
the driver handles the flags of the two in opposite ways. `tx_int_enable` keeps a flag that is
already set, and then the routine runs while the chip is busy. `rx_int_disable` clears the flag
while the line is low, and then no edge comes any more. -/

namespace AvrBridge.UsbDuplex

open Rust Lts UsbFt240

variable {s t : State}

/-! ## Bytes strobed into a busy chip -/

/-- The flag of `INT5` is clear when a packet is handed to the driver. -/
def FlagClear (s : State) : Act → Prop
  | .write _ => s.flag5 = false
  | _ => True

instance (s : State) (act : Act) : Decidable (FlagClear s act) :=
  match act with
  | .write _ => inferInstanceAs (Decidable (_ = _))
  | .receive _ | .rxfFalls | .txeFalls | .poll _ _ | .int5 => inferInstanceAs (Decidable True)

/-- TXE was low before every strobe but the first. -/
def Packet.Ready (p : Packet) : Prop := ∀ x ∈ p.strobed.tail, x.2 = false

structure Calm (s : State) : Prop where
  flag : s.flag5 = true → s.txe = false
  packets : ∀ p ∈ s.packets, p.Ready

theorem Packet.ready_strobe {p : Packet} (h : p.Ready) (hne : p.strobed ≠ []) (byte : UInt8) :
    (p.strobe byte false).Ready := by
  obtain ⟨first, rest, hcons⟩ := List.exists_cons_of_ne_nil hne
  intro x hx
  rw [Packet.strobe, hcons, List.cons_append, List.tail_cons] at hx
  rcases List.mem_append.mp hx with hx | hx
  · apply h x
    rw [hcons]
    exact hx
  · rw [List.mem_singleton.mp hx]

/-- The flag and the packets are as they were. -/
theorem Calm.frame (h : Calm s) (hflag : t.flag5 = true → t.txe = false)
    (hpackets : t.packets = s.packets) : Calm t := by
  constructor
  · exact hflag
  · rw [hpackets]
    exact h.packets

theorem calm_write {b : Outgoing} (h : Calm s) (hclear : s.flag5 = false)
    (hs : step s (.write b) = some t) : Calm t := by
  simp only [step] at hs
  rcases write_spec b s.txe s.ext with ⟨-, panic, heq⟩ | ⟨-, hnil, heq⟩ |
    ⟨-, byte, rest, buffer, hcons, hgood, heq⟩
  · rw [heq] at hs
    cases hs
  · rw [heq] at hs
    cases hs
    constructor
    · intro hflag
      have hoff := (getLsbD_txIntDisable s.ext 5).2
      rw [show (txIntDisable s.ext).eifr.getLsbD 5 = true from hflag] at hoff
      simp at hoff
    · intro p hp
      rcases List.mem_append.mp hp with hp | hp
      · exact h.packets p hp
      · rw [List.mem_singleton.mp hp]
        intro x hx
        cases hx
  · rw [heq] at hs
    cases hs
    constructor
    · intro hflag
      rw [show s.flag5 = true from hflag] at hclear
      cases hclear
    · intro p hp
      rcases List.mem_append.mp hp with hp | hp
      · exact h.packets p hp
      · rw [List.mem_singleton.mp hp]
        intro x hx
        cases hx

/-- The packet of the last write is another, the earlier ones are as they were. -/
theorem Calm.last (h : Calm s) (hflag : t.flag5 = true → t.txe = false) (hpast : t.past = s.past)
    {p : Packet} (hpacket : t.packet = some p) (hready : p.Ready) : Calm t := by
  constructor
  · exact hflag
  · intro q hq
    rw [State.packets, hpast, hpacket] at hq
    rcases List.mem_append.mp hq with hq | hq
    · exact h.packets q (List.mem_append_left _ hq)
    · rw [List.mem_singleton.mp hq]
      exact hready

theorem calm_int5 (hinv : Inv s) (h : Calm s) (hs : step s .int5 = some t) : Calm t := by
  obtain ⟨-, hset, hcases⟩ := int5_cases hinv hs
  have hlow : s.txe = false := h.flag hset
  have hready : ∀ p, s.packet = some p → p.Ready := by
    intro p hp
    apply h.packets p
    rw [State.packets, hp]
    exact List.mem_append_right _ (List.mem_singleton_self p)
  rcases hcases with ⟨-, rfl⟩ | ⟨tx, p, byte, rest, buffer, -, hresult, hp, hcarried, -, rfl⟩ |
    ⟨tx, p, -, -, hp, -, rfl⟩
  · exact h.frame (fun _ => hlow) rfl
  · have hstage := hcarried.stage
    rw [hresult] at hstage
    have hstrobed : s.packet.map (fun q => q.strobe byte s.txe) = some (p.strobe byte false) := by
      rw [hp, hlow]
      rfl
    refine h.last ?_ rfl hstrobed (Packet.ready_strobe (hready p hp) hstage.1 byte)
    intro hflag
    have hoff : (s.ext.writeEifr txExtInt5).eifr.getLsbD 5 = false := by
      rw [ExtInt.writeEifr, txExtInt5_eq]
      exact (Mask.getLsbD_remove (by decide) 5).trans (Bool.and_false _)
    rw [show (s.ext.writeEifr txExtInt5).eifr.getLsbD 5 = true from hflag] at hoff
    cases hoff
  · have hflushed : s.packet.map Packet.flush = some p.flush := by
      rw [hp]
      rfl
    exact h.last (fun _ => hlow) rfl hflushed (hready p hp)

theorem calm_step {act : Act} (hinv : Inv s) (h : Calm s) (hg : FlagClear s act)
    (hs : step s act = some t) : Calm t := by
  cases act with
  | receive act =>
    obtain ⟨hr, htxe, hflag, hsame, -⟩ := receive_cases hs
    have hsame := hsame (receive_effect hinv.receive hr).mask5
    refine h.frame ?_ hsame.packets
    rw [hflag, htxe]
    exact h.flag
  | rxfFalls =>
    simp only [step] at hs
    split at hs
    · cases hs
      refine h.frame ?_ rfl
      intro hflag
      change (s.eifr ||| rxExtInt6).getLsbD 5 = true at hflag
      rw [rxExtInt6_eq, getLsbD_setFlag _ (by decide)] at hflag
      have hset : s.flag5 = true := (Bool.or_false _).symm.trans hflag
      exact h.flag hset
    · cases hs
  | txeFalls =>
    simp only [step] at hs
    split at hs
    · cases hs
      exact h.frame (fun _ => rfl) rfl
    · cases hs
  | write b => exact calm_write h hg hs
  | poll n waker =>
    obtain ⟨-, ⟨tx, -, -, rfl⟩ | ⟨result, -, rfl⟩⟩ := poll_cases hs
    · exact h.frame h.flag rfl
    · exact h.frame h.flag rfl
  | int5 => exact calm_int5 hinv h hs

/-- TXE falls before the packet comes; the routine runs on that old edge, behind the first
strobe. -/
theorem not_strobed_ready_stale :
    ∃ s, (system ⟨0, 0⟩ true true 0 4 [0, 0, 0, 0]).Reachable s ∧
      s.packets.map Packet.strobed = [[(1, false), (2, true)]] := by
  obtain ⟨s, hs, htest⟩ := exists_reachable_of_runFun (f := step)
    [.txeFalls, .write twoBytes, .int5]
    (fun s => s.packets.map Packet.strobed == [[(1, false), (2, true)]])
    (.init (M := system ⟨0, 0⟩ true true 0 4 [0, 0, 0, 0]) rfl) (by decide +kernel)
  exact ⟨s, hs, beq_iff_eq.mp htest⟩

/-! ## The receiver that stalls -/

/-- The chip has a byte, and its edge has been forgotten. -/
def Stalled (s : State) : Prop := s.rxf = false ∧ s.flag6 = false

/-- A flag means that the chip has a byte, and the interrupt is masked only in a stall. -/
structure Wakeful (s : State) : Prop where
  flag : s.flag6 = true → s.rxf = false
  mask : s.mask6 = true ∨ Stalled s

/-- Nothing but an edge or the routine touches the receiving line and its flag, and nothing but a
stall masks the routine. -/
structure KeepsRx (s t : State) : Prop where
  rxf : t.rxf = s.rxf
  flag : t.flag6 = s.flag6
  mask : s.mask6 = true → t.mask6 = true
  taken : t.receive.taken = s.receive.taken

theorem KeepsRx.stalled (h : KeepsRx s t) : Stalled t ↔ Stalled s := by
  rw [Stalled, Stalled, h.rxf, h.flag]

theorem KeepsRx.wakeful (h : KeepsRx s t) (hw : Wakeful s) : Wakeful t := by
  constructor
  · rw [h.flag, h.rxf]
    exact hw.flag
  · exact hw.mask.imp h.mask h.stalled.mpr

/-- The registers after a routine of the transmitting half, whatever the chip does. -/
theorem keepsRx_call (s : State) (call : Option ChipCall) (hrxf : s.rxf = t.rxf)
    (hflag : s.flag6 = t.flag6) (hmask : t.mask6 = true → s.mask6 = true)
    (htaken : s.receive.taken = t.receive.taken) : KeepsRx t (s.call call) := by
  cases call with
  | none => exact ⟨hrxf, hflag, hmask, htaken⟩
  | some call =>
    cases call with
    | writeByte data => exact ⟨hrxf, hflag, hmask, htaken⟩
    | flush => exact ⟨hrxf, hflag, hmask, htaken⟩

theorem getLsbD_six_txIntDisable (e : ExtInt) :
    (txIntDisable e).eimsk.getLsbD 6 = e.eimsk.getLsbD 6 ∧
      (txIntDisable e).eifr.getLsbD 6 = e.eifr.getLsbD 6 :=
  ⟨(getLsbD_txIntDisable e 6).1.trans (Bool.and_true _),
    (getLsbD_txIntDisable e 6).2.trans (Bool.and_true _)⟩

theorem keepsRx_write {b : Outgoing} (hs : step s (.write b) = some t) : KeepsRx s t := by
  simp only [step] at hs
  rcases write_spec b s.txe s.ext with ⟨-, panic, heq⟩ | ⟨-, -, heq⟩ |
    ⟨-, byte, rest, buffer, -, -, heq⟩
  · rw [heq] at hs
    cases hs
  · rw [heq] at hs
    cases hs
    obtain ⟨hmask, hflag⟩ := getLsbD_six_txIntDisable s.ext
    exact keepsRx_call _ none rfl hflag (fun h => hmask.trans h) rfl
  · rw [heq] at hs
    cases hs
    refine keepsRx_call _ (some (.writeByte byte)) rfl rfl ?_ rfl
    intro hmask
    show (txIntEnable s.ext).eimsk.getLsbD 6 = true
    rw [getLsbD_txIntEnable]
    exact (Bool.or_false _).trans hmask

theorem keepsRx_poll {n : Nat} {waker : Waker} (hs : step s (.poll n waker) = some t) :
    KeepsRx s t := by
  obtain ⟨-, ⟨tx, -, -, rfl⟩ | ⟨result, -, rfl⟩⟩ := poll_cases hs
  · exact ⟨rfl, rfl, id, rfl⟩
  · exact ⟨rfl, rfl, id, rfl⟩

theorem keepsRx_int5 (hinv : Inv s) (hs : step s .int5 = some t) : KeepsRx s t := by
  have hcleared : (s.ext.writeEifr txExtInt5).eifr.getLsbD 6 = s.flag6 := by
    rw [ExtInt.writeEifr, txExtInt5_eq]
    exact (Mask.getLsbD_remove (by decide) 6).trans (Bool.and_true _)
  obtain ⟨hmask, hflag⟩ := getLsbD_six_txIntDisable (s.ext.writeEifr txExtInt5)
  obtain ⟨-, -, ⟨-, rfl⟩ | ⟨tx, p, byte, rest, buffer, -, -, -, -, -, rfl⟩ |
    ⟨tx, p, -, -, -, -, rfl⟩⟩ := int5_cases hinv hs
  · exact ⟨rfl, hflag.trans hcleared, fun h => hmask.trans h, rfl⟩
  · exact keepsRx_call _ (some (.writeByte byte)) rfl hcleared id rfl
  · exact keepsRx_call _ (some .flush) rfl (hflag.trans hcleared) (fun h => hmask.trans h) rfl

/-- The edge, which only a high line has. -/
theorem rxfFalls_eq (hs : step s .rxfFalls = some t) :
    s.rxf = true ∧ t.rxf = false ∧ t.flag6 = true ∧ t.mask6 = s.mask6 := by
  simp only [step] at hs
  split at hs
  · rename_i hhigh
    cases hs
    refine ⟨hhigh, rfl, ?_, rfl⟩
    show (s.eifr ||| rxExtInt6).getLsbD 6 = true
    rw [rxExtInt6_eq, getLsbD_setFlag _ (by decide)]
    exact Bool.or_true _
  · cases hs

/-- The receiving half outside its routine. -/
theorem keepsRx_receive {act : UsbRxFuture.Act} (hinv : Inv s)
    (hact : ∀ byte, act ≠ .int6 byte) (hs : step s (.receive act) = some t) : KeepsRx s t := by
  obtain ⟨hr, -, -, -, hlines⟩ := receive_cases hs
  have heffect := receive_effect hinv.receive hr
  cases act with
  | int6 byte => exact absurd rfl (hact byte)
  | read storage =>
    obtain ⟨hflag, hrxf⟩ := hlines
    refine ⟨hrxf, hflag, ?_, heffect.2⟩
    intro hmask
    rw [State.mask6, heffect.1]
    exact hmask
  | poll waker =>
    obtain ⟨hflag, hrxf⟩ := hlines
    refine ⟨hrxf, hflag, ?_, heffect.2⟩
    intro _
    rw [State.mask6, heffect.1, getLsbD_rxIntEnable]
    exact Bool.or_true _

/-- **The routine.** On a full ring it forgets the edge and leaves the byte. -/
theorem int6_lines {byte : UInt8} (hinv : Inv s) (hw : Wakeful s)
    (hs : step s (.receive (.int6 byte)) = some t) :
    s.flag6 = true ∧ t.flag6 = false ∧
      ((RingFull s.receive ∧ t.rxf = false) ∨
        (¬ RingFull s.receive ∧ t.rxf = true ∧ t.mask6 = s.mask6)) := by
  obtain ⟨hr, -, -, -, hset, hclear, hrxf⟩ := receive_cases hs
  refine ⟨hset, hclear, ?_⟩
  have hlow : s.rxf = false := hw.flag hset
  rcases receive_effect hinv.receive hr with ⟨hfull, -, htaken⟩ | ⟨hroom, heimsk, htaken⟩
  · refine .inl ⟨hfull, ?_⟩
    rw [hrxf, hlow, htaken, bne_self_eq_false]
    rfl
  · refine .inr ⟨hroom, ?_, ?_⟩
    · have hne : (s.receive.taken ++ [byte] != s.receive.taken) = true := by
        rw [bne_iff_ne]
        exact fun heq => List.cons_ne_nil byte [] (List.append_right_eq_self.mp heq)
      rw [hrxf, hlow, htaken, hne]
      rfl
    · rw [State.mask6, heimsk]
      rfl

/-- The step that stalls the receiver. -/
def Stalls (s : State) (act : Act) : Prop :=
  (∃ byte, act = .receive (.int6 byte)) ∧ RingFull s.receive

/-- **Step lemma.** -/
theorem step_lines {act : Act} (hinv : Inv s) (hw : Wakeful s) (hs : step s act = some t) :
    Wakeful t ∧ (Stalled t ↔ Stalled s ∨ Stalls s act) ∧
      (Stalled s → t.receive.taken = s.receive.taken) := by
  have of_keeps : KeepsRx s t → (∀ byte, act ≠ .receive (.int6 byte)) →
      Wakeful t ∧ (Stalled t ↔ Stalled s ∨ Stalls s act) ∧
        (Stalled s → t.receive.taken = s.receive.taken) := by
    intro hkeeps hact
    refine ⟨hkeeps.wakeful hw, ?_, fun _ => hkeeps.taken⟩
    rw [hkeeps.stalled]
    refine ⟨.inl, ?_⟩
    rintro (hstalled | ⟨⟨byte, rfl⟩, -⟩)
    · exact hstalled
    · exact absurd rfl (hact byte)
  cases act with
  | write b =>
    refine of_keeps (keepsRx_write hs) ?_
    intro byte heq
    cases heq
  | poll n waker =>
    refine of_keeps (keepsRx_poll hs) ?_
    intro byte heq
    cases heq
  | int5 =>
    refine of_keeps (keepsRx_int5 hinv hs) ?_
    intro byte heq
    cases heq
  | txeFalls =>
    simp only [step] at hs
    split at hs
    · cases hs
      refine of_keeps ⟨rfl, ?_, id, rfl⟩ ?_
      · show (s.eifr ||| txExtInt5).getLsbD 6 = s.flag6
        rw [txExtInt5_eq, getLsbD_setFlag _ (by decide)]
        exact Bool.or_false _
      · intro byte heq
        cases heq
    · cases hs
  | rxfFalls =>
    obtain ⟨hhigh, hlow, hset, hmask⟩ := rxfFalls_eq hs
    have hnot : ¬ Stalled s := by
      rintro ⟨hrxf, -⟩
      rw [hhigh] at hrxf
      cases hrxf
    refine ⟨⟨fun _ => hlow, .inl ?_⟩, ?_, fun h => absurd h hnot⟩
    · rw [hmask]
      exact hw.mask.resolve_right hnot
    · constructor
      · rintro ⟨-, hclear⟩
        rw [hset] at hclear
        cases hclear
      · rintro (h | ⟨⟨byte, heq⟩, -⟩)
        · exact absurd h hnot
        · cases heq
  | receive act =>
    by_cases hact : ∃ byte, act = .int6 byte
    · obtain ⟨byte, rfl⟩ := hact
      obtain ⟨hset, hclear, hlines⟩ := int6_lines hinv hw hs
      have hnot : ¬ Stalled s := by
        rintro ⟨-, hflag⟩
        rw [hset] at hflag
        cases hflag
      rcases hlines with ⟨hfull, hlow⟩ | ⟨hroom, hhigh, hmask⟩
      · have hstalled : Stalled t := ⟨hlow, hclear⟩
        refine ⟨⟨fun _ => hlow, .inr hstalled⟩, ?_, fun h => absurd h hnot⟩
        exact ⟨fun _ => .inr ⟨⟨byte, rfl⟩, hfull⟩, fun _ => hstalled⟩
      · refine ⟨⟨?_, .inl ?_⟩, ?_, fun h => absurd h hnot⟩
        · intro hflag
          rw [hclear] at hflag
          cases hflag
        · rw [hmask]
          exact hw.mask.resolve_right hnot
        · constructor
          · rintro ⟨hlow, -⟩
            rw [hhigh] at hlow
            cases hlow
          · rintro (h | ⟨-, hfull⟩)
            · exact absurd h hnot
            · exact absurd hfull hroom
    · have hne : ∀ byte, act ≠ .int6 byte := fun byte heq => hact ⟨byte, heq⟩
      refine of_keeps (keepsRx_receive hinv hne hs) ?_
      intro byte heq
      cases heq
      exact hne byte rfl

/-- **Run lemma.** A stall is for good, whatever is read. -/
theorem runFun_stalled (acts : List Act) (hinv : Inv s) (hw : Wakeful s) (h : Stalled s)
    (hrun : runFun step s acts = some t) :
    Stalled t ∧ t.receive.taken = s.receive.taken := by
  induction acts generalizing s with
  | nil =>
    cases hrun
    exact ⟨h, rfl⟩
  | cons act acts ih =>
    rw [runFun_cons] at hrun
    obtain ⟨u, hu, hrun⟩ := Option.bind_eq_some_iff.mp hrun
    obtain ⟨hwakeful, hstalled, htaken⟩ := step_lines hinv hw hu
    obtain ⟨hend, hsame⟩ := ih (inv_step hinv hu) hwakeful (hstalled.mpr (.inl h)) hrun
    exact ⟨hend, hsame.trans (htaken h)⟩

/-- **The stall.** In every run of both halves: a receiver that is not stalled is unmasked and
has the flag exactly while the chip has a byte; a stalled one takes no byte any more, whatever
happens and whoever reads; and only an interrupt on a full ring stalls it, besides a chip that
has a byte before the first edge. -/
theorem stall_of_run (e : ExtInt) (rxf txe : Bool) (ptr capacity : Nat) (storage : List UInt8)
    (hcap : 1 ≤ capacity) (hlen : storage.length = capacity) (s : State)
    (h : (system e rxf txe ptr capacity storage).Reachable s) :
    (¬ Stalled s → s.mask6 = true ∧ (s.flag6 = true ↔ s.rxf = false)) ∧
    (Stalled s → ∀ acts t, runFun step s acts = some t →
      Stalled t ∧ t.receive.taken = s.receive.taken) ∧
    (∀ act t, step s act = some t → (Stalled t ↔ Stalled s ∨ Stalls s act)) ∧
    (Stalled (start e rxf txe ptr capacity storage) ↔ rxf = false) := by
  have hclear : (start e rxf txe ptr capacity storage).flag6 = false := by
    show (e.eifr &&& ~~~rxExtInt6 &&& ~~~txExtInt5).getLsbD 6 = false
    rw [txExtInt5_eq, Mask.getLsbD_remove (by decide), rxExtInt6_eq,
      Mask.getLsbD_remove (by decide)]
    exact (Bool.and_true _).trans (Bool.and_false _)
  have hboth : Inv s ∧ Wakeful s := by
    refine h.invariant (I := fun u => Inv u ∧ Wakeful u) ?_ ?_
    · rintro _ rfl
      refine ⟨inv_start e rxf txe ptr hcap hlen, ?_, .inl ?_⟩
      · intro hflag
        rw [hclear] at hflag
        cases hflag
      · show (rxIntEnable e.eimsk).getLsbD 6 = true
        rw [getLsbD_rxIntEnable]
        exact Bool.or_true _
    · rintro u act v ⟨hinv, hw⟩ hv
      exact ⟨inv_step hinv hv, (step_lines hinv hw hv).1⟩
  obtain ⟨hinv, hw⟩ := hboth
  refine ⟨?_, ?_, ?_, ?_⟩
  · intro hnot
    refine ⟨hw.mask.resolve_right hnot, hw.flag, ?_⟩
    intro hlow
    by_contra hflag
    exact hnot ⟨hlow, Bool.eq_false_iff.mpr hflag⟩
  · intro hstalled acts t hrun
    exact runFun_stalled acts hinv hw hstalled hrun
  · intro act t hs
    exact (step_lines hinv hw hs).2.1
  · exact ⟨fun hstalled => hstalled.1, fun hlow => ⟨hlow, hclear⟩⟩

/-- A ring with one place. Its byte is read, and the chip keeps the next. -/
theorem stall_of_run_onePlace :
    ∃ s, (system ⟨0, 0⟩ true true 0 2 [0, 0]).Reachable s ∧
      s.receive.ring = [] ∧ s.receive.taken = [9] ∧
      ∀ acts t, runFun step s acts = some t → t.receive.taken = [9] := by
  obtain ⟨s, hs, htest⟩ := exists_reachable_of_runFun (f := step)
    [.rxfFalls, .receive (.int6 9), .rxfFalls, .receive (.int6 8), .receive (.read [0, 0]),
      .receive (.poll 7)]
    (fun s => s.receive.ring == [] && s.receive.taken == [9] && s.rxf == false && s.flag6 == false)
    (.init (M := system ⟨0, 0⟩ true true 0 2 [0, 0]) rfl) (by decide +kernel)
  simp only [Bool.and_eq_true, beq_iff_eq] at htest
  obtain ⟨⟨⟨hring, htaken⟩, hlow⟩, hclear⟩ := htest
  refine ⟨s, hs, hring, htaken, ?_⟩
  intro acts t hrun
  have hstall := stall_of_run ⟨0, 0⟩ true true 0 2 [0, 0] (by decide) rfl s hs
  exact ((hstall.2.1 ⟨hlow, hclear⟩ acts t hrun).2).trans htaken

end AvrBridge.UsbDuplex
