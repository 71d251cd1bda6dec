import AvrBridge.UsbFt240Duplex

/-! Runs of both halves of `usb_ft240.rs`: what becomes of the packets that are handed to `write`,
and what their futures answer. -/

namespace AvrBridge.UsbDuplex

open Rust Lts FlatBuffer UsbFt240

/-- What is known of an answer: whoever asked, it is about the packet of the last write, and it is
given once. -/
structure Settled (s : State) (a : Answer) : Prop where
  last_lt : a.last < s.packets.length
  gone : a.last + 1 = s.packets.length → s.tx = none
  result : (a.result = .error .missingGlobalState ∧
      ∃ b ∈ s.answers, b.last = a.last ∧ b.result ≠ .error .missingGlobalState) ∨
    ∃ p, s.packets[a.last]? = some p ∧ Answered p a.result

structure Inv (s : State) : Prop where
  receive : UsbRxFuture.Sound s.receive
  carried : ∀ tx, s.tx = some tx → ∃ p unread, s.packet = some p ∧ Carried tx p unread
  begun : ∀ p ∈ s.packets, p.bytes <+: p.submitted
  answers : ∀ a ∈ s.answers, Settled s a
  taken : s.tx = none → s.packets ≠ [] →
    ∃ a ∈ s.answers, a.last + 1 = s.packets.length ∧ a.result ≠ .error .missingGlobalState
  flight : ∀ tx, s.tx = some tx → tx.result = none →
    s.mask5 = true ∧ (s.txe = true ∨ s.flag5 = true)
  finished : ∀ tx, s.tx = some tx → tx.result ≠ none → s.mask5 = false
  waits : ∀ x ∈ s.pending, x.1 < s.packets.length

section Steps

variable {s t : State}

/-- What one half does with EIMSK is nothing to the soundness of the other. -/
theorem sound_setEimsk {r : UsbRxFuture.State} (h : UsbRxFuture.Sound r) (eimsk : BitVec 8) :
    UsbRxFuture.Sound { r with eimsk := eimsk } := ⟨h.rx, h.current, h.packets⟩

/-- The transmitting half is as it was. -/
structure SameTx (s t : State) : Prop where
  tx : t.tx = s.tx
  past : t.past = s.past
  packet : t.packet = s.packet
  answers : t.answers = s.answers
  pending : t.pending = s.pending
  woken : t.woken = s.woken
  mask5 : t.mask5 = s.mask5

theorem SameTx.packets (h : SameTx s t) : t.packets = s.packets := by
  rw [State.packets, h.past, h.packet, State.packets]

theorem Settled.frame {a : Answer} (h : Settled s a) (htx : t.tx = s.tx)
    (hpackets : t.packets = s.packets) (hanswers : t.answers = s.answers) : Settled t a := by
  constructor
  · rw [hpackets]
    exact h.last_lt
  · rw [hpackets, htx]
    exact h.gone
  · rw [hpackets, hanswers]
    exact h.result

/-- A step that leaves the transmitting half alone, and takes back no fall of TXE. -/
theorem Inv.frame (h : Inv s) (hsame : SameTx s t) (hreceive : UsbRxFuture.Sound t.receive)
    (hready : s.txe = true ∨ s.flag5 = true → t.txe = true ∨ t.flag5 = true) : Inv t := by
  have hpackets := hsame.packets
  constructor
  · exact hreceive
  · rw [hsame.tx, hsame.packet]
    exact h.carried
  · rw [hpackets]
    exact h.begun
  · intro a ha
    rw [hsame.answers] at ha
    exact (h.answers a ha).frame hsame.tx hpackets hsame.answers
  · rw [hsame.tx, hpackets, hsame.answers]
    exact h.taken
  · intro tx hs hresult
    rw [hsame.tx] at hs
    obtain ⟨henabled, hwaits⟩ := h.flight tx hs hresult
    rw [hsame.mask5]
    exact ⟨henabled, hready hwaits⟩
  · intro tx hs hresult
    rw [hsame.tx] at hs
    rw [hsame.mask5]
    exact h.finished tx hs hresult
  · rw [hsame.pending, hpackets]
    exact h.waits

theorem Effect.mask5 {r r' : UsbRxFuture.State} {act : UsbRxFuture.Act} (h : Effect r act r') :
    r'.eimsk.getLsbD 5 = r.eimsk.getLsbD 5 := by
  have henable : (rxIntEnable r.eimsk).getLsbD 5 = r.eimsk.getLsbD 5 := by
    rw [getLsbD_rxIntEnable]
    exact Bool.or_false _
  have hdisable : (rxIntDisable r.eimsk).getLsbD 5 = r.eimsk.getLsbD 5 := by
    rw [getLsbD_rxIntDisable]
    exact Bool.and_true _
  cases act with
  | int6 byte =>
    rcases h with ⟨-, heq, -⟩ | ⟨-, heq, -⟩
    · rw [heq, hdisable]
    · rw [heq]
  | read storage => rw [h.1]
  | poll waker => rw [h.1, henable]

/-- What a step of the receiving half does to the whole. -/
theorem receive_cases {act : UsbRxFuture.Act} (hs : step s (.receive act) = some t) :
    UsbRxFuture.step s.receive act = some t.receive ∧ t.txe = s.txe ∧
      t.flag5 = s.flag5 ∧ (t.mask5 = s.mask5 → SameTx s t) ∧
      match act with
      | .int6 _ => s.flag6 = true ∧ t.flag6 = false ∧
          t.rxf = (s.rxf || t.receive.taken != s.receive.taken)
      | _ => t.flag6 = s.flag6 ∧ t.rxf = s.rxf := by
  cases act with
  | int6 byte =>
    simp only [step] at hs
    split at hs
    · cases hs
    · rename_i hflag
      obtain ⟨r, hr, rfl⟩ := Option.map_eq_some_iff.mp hs
      have hclear : ∀ i, (s.eifr &&& ~~~rxExtInt6).getLsbD i =
          (s.eifr.getLsbD i && decide (6 ≠ i)) := by
        intro i
        rw [rxExtInt6_eq]
        exact Mask.getLsbD_remove (by decide) i
      refine ⟨hr, rfl, ?_, fun hmask => ⟨rfl, rfl, rfl, rfl, rfl, rfl, hmask⟩,
        (flag6_iff _).mp hflag, ?_, rfl⟩
      · exact (hclear 5).trans (Bool.and_true _)
      · exact (hclear 6).trans (Bool.and_false _)
  | read storage =>
    obtain ⟨r, hr, rfl⟩ := Option.map_eq_some_iff.mp hs
    exact ⟨hr, rfl, rfl, fun hmask => ⟨rfl, rfl, rfl, rfl, rfl, rfl, hmask⟩, rfl, rfl⟩
  | poll waker =>
    obtain ⟨r, hr, rfl⟩ := Option.map_eq_some_iff.mp hs
    exact ⟨hr, rfl, rfl, fun hmask => ⟨rfl, rfl, rfl, rfl, rfl, rfl, hmask⟩, rfl, rfl⟩

theorem inv_receive {act : UsbRxFuture.Act} (h : Inv s) (hs : step s (.receive act) = some t) :
    Inv t := by
  obtain ⟨hr, htxe, hflag, hsame, -⟩ := receive_cases hs
  have hmask : t.mask5 = s.mask5 := (receive_effect h.receive hr).mask5
  refine h.frame (hsame hmask) (UsbRxFuture.sound_step h.receive hr) ?_
  rw [htxe, hflag]
  exact id

theorem getLsbD_setFlag (eifr : BitVec 8) {i : Nat} (hi : i < 8) (j : Nat) :
    (eifr ||| BitVec.twoPow 8 i).getLsbD j = (eifr.getLsbD j || decide (i = j)) :=
  Mask.getLsbD_add hi j

theorem inv_rxfFalls (h : Inv s) (hs : step s .rxfFalls = some t) : Inv t := by
  simp only [step] at hs
  split at hs
  · cases hs
    refine h.frame ⟨rfl, rfl, rfl, rfl, rfl, rfl, rfl⟩ h.receive ?_
    refine Or.imp_right ?_
    intro hflag
    show (s.eifr ||| rxExtInt6).getLsbD 5 = true
    rw [rxExtInt6_eq, getLsbD_setFlag _ (by decide), show s.eifr.getLsbD 5 = true from hflag]
    rfl
  · cases hs

theorem inv_txeFalls (h : Inv s) (hs : step s .txeFalls = some t) : Inv t := by
  simp only [step] at hs
  split at hs
  · cases hs
    refine h.frame ⟨rfl, rfl, rfl, rfl, rfl, rfl, rfl⟩ h.receive ?_
    intro _
    right
    show (s.eifr ||| txExtInt5).getLsbD 5 = true
    rw [txExtInt5_eq, getLsbD_setFlag _ (by decide)]
    exact Bool.or_true _
  · cases hs

/-! ### A write -/

/-- A packet is put behind the others. -/
theorem Settled.write {a : Answer} (h : Settled s a) {p : Packet}
    (hpackets : t.packets = s.packets ++ [p]) (hanswers : t.answers = s.answers) :
    Settled t a := by
  have hlt := h.last_lt
  constructor
  · rw [hpackets, List.length_append]
    omega
  · intro hlast
    rw [hpackets, List.length_append, List.length_singleton] at hlast
    omega
  · rw [hanswers]
    refine h.result.imp_right ?_
    rintro ⟨q, hq, hanswered⟩
    refine ⟨q, ?_, hanswered⟩
    rw [hpackets, List.getElem?_append_left hlt]
    exact hq

/-- What `write` leaves, whether or not there was a byte to strobe. -/
theorem Inv.write (h : Inv s) {tx : TxState} {p : Packet} {unread : List UInt8}
    (hreceive : UsbRxFuture.Sound t.receive) (htx : t.tx = some tx) (hpast : t.past = s.packets)
    (hpacket : t.packet = some p) (hanswers : t.answers = s.answers)
    (hpending : t.pending = s.pending) (hcarried : Carried tx p unread)
    (hflight : tx.result = none → t.mask5 = true ∧ (t.txe = true ∨ t.flag5 = true))
    (hfinished : tx.result ≠ none → t.mask5 = false) : Inv t := by
  have hpackets : t.packets = s.packets ++ [p] := by
    rw [State.packets, hpast, hpacket]
    rfl
  constructor
  · exact hreceive
  · intro tx' htx'
    rw [htx] at htx'
    cases htx'
    exact ⟨p, unread, hpacket, hcarried⟩
  · intro q hq
    rw [hpackets] at hq
    rcases List.mem_append.mp hq with hq | hq
    · exact h.begun q hq
    · rw [List.mem_singleton.mp hq]
      exact hcarried.begun
  · intro a ha
    rw [hanswers] at ha
    exact (h.answers a ha).write hpackets hanswers
  · intro hnone
    rw [htx] at hnone
    cases hnone
  · intro tx' htx' hresult
    rw [htx] at htx'
    cases htx'
    exact hflight hresult
  · intro tx' htx' hresult
    rw [htx] at htx'
    cases htx'
    exact hfinished hresult
  · intro x hx
    rw [hpending] at hx
    have hlt := h.waits x hx
    rw [hpackets, List.length_append]
    omega

theorem inv_write {b : Outgoing} (h : Inv s) (hs : step s (.write b) = some t) : Inv t := by
  simp only [step] at hs
  rcases write_spec b s.txe s.ext with ⟨-, panic, heq⟩ | ⟨-, hnil, heq⟩ |
    ⟨-, byte, rest, buffer, hcons, hgood, heq⟩
  · rw [heq] at hs
    cases hs
  · rw [heq] at hs
    cases hs
    have hcarried : Carried (.error b.flat .bufferEmpty) ⟨b.contents, [], 0⟩ [] := by
      have hgood := b.good
      rw [hnil] at hgood
      have hsubmitted : Packet.submitted ⟨b.contents, [], 0⟩ = [] := by
        rw [Packet.submitted, hnil]
        rfl
      exact ⟨hgood, hsubmitted.symm, rfl, hsubmitted, rfl, rfl⟩
    refine h.write (sound_setEimsk h.receive _) rfl rfl rfl rfl rfl hcarried ?_ ?_
    · intro hresult
      cases hresult
    · intro _
      exact ((getLsbD_txIntDisable s.ext 5).1).trans (Bool.and_false _)
  · rw [heq] at hs
    cases hs
    have hcarried : Carried (.new buffer) (Packet.strobe ⟨b.contents, [], 0⟩ byte s.txe)
        (rest ++ if s.txe then [0x2a] else []) := by
      refine ⟨hgood, ?_, List.cons_ne_nil _ _, rfl⟩
      rw [Packet.submitted_first, hcons]
      rfl
    refine h.write (sound_setEimsk h.receive _) rfl rfl rfl rfl rfl hcarried ?_ ?_
    · intro _
      exact ⟨(getLsbD_txIntEnable s.ext 5).trans (Bool.or_true _), .inl rfl⟩
    · intro hresult
      exact absurd rfl hresult

/-! ### A poll -/

/-- What a poll of a future does. -/
theorem poll_cases {n : Nat} {waker : Waker} (hs : step s (.poll n waker) = some t) :
    n < s.packets.length ∧
      ((∃ tx, s.tx = some tx ∧ tx.result = none ∧ t = { s with
          tx := some { tx with waker := some waker }
          pending := (n, waker) :: s.polled n }) ∨
        ∃ result, ((s.tx = none ∧ result = .error .missingGlobalState) ∨
            ∃ tx r, s.tx = some tx ∧ tx.result = some r ∧ result = r.map fun _ => tx.buffer) ∧
          t = { s with
            tx := none
            answers := s.answers ++ [⟨n, s.packets.length - 1, result⟩]
            pending := s.polled n }) := by
  simp only [step] at hs
  split at hs
  · rename_i hn
    refine ⟨hn, ?_⟩
    cases htx : s.tx with
    | none =>
      simp only [htx, UsbTxFuture.poll] at hs
      cases hs
      exact .inr ⟨_, .inl ⟨rfl, rfl⟩, rfl⟩
    | some tx =>
      cases hresult : tx.result with
      | none =>
        simp only [htx, UsbTxFuture.poll, hresult] at hs
        cases hs
        exact .inl ⟨tx, rfl, hresult, by rw [hresult]⟩
      | some result =>
        cases result with
        | ok _ | error _ =>
          simp only [htx, UsbTxFuture.poll, hresult] at hs
          cases hs
          exact .inr ⟨_, .inr ⟨tx, _, rfl, hresult, rfl⟩, rfl⟩
  · cases hs

theorem Inv.packets_of_some (h : Inv s) {tx : TxState} (htx : s.tx = some tx) :
    s.packets.length = s.past.length + 1 := by
  obtain ⟨p, -, hp, -⟩ := h.carried tx htx
  rw [State.packets, hp, List.length_append]
  rfl

/-- The chip adds no packet. -/
theorem State.length_packets_call (s : State) (call : Option ChipCall) :
    (s.call call).packets.length = s.packets.length := by
  cases call with
  | none => rfl
  | some call =>
    cases call with
    | writeByte data | flush =>
      simp only [State.call, State.packets, List.length_append, Option.length_toList,
        Option.isSome_map]

/-- The packet of the last write. -/
theorem State.getElem?_packets (s : State) : s.packets[s.past.length]? = s.packet := by
  rw [State.packets, List.getElem?_append_right (Nat.le_refl _), Nat.sub_self]
  cases s.packet <;> rfl

/-- An answer leaves the others as they are. -/
theorem Settled.answer {a b : Answer} (h : Settled s a) (htx : t.tx = none)
    (hpackets : t.packets = s.packets) (hanswers : t.answers = s.answers ++ [b]) :
    Settled t a := by
  constructor
  · rw [hpackets]
    exact h.last_lt
  · intro _
    exact htx
  · rw [hpackets, hanswers]
    refine h.result.imp_left ?_
    rintro ⟨hmissing, c, hc, hsame⟩
    exact ⟨hmissing, c, List.mem_append_left _ hc, hsame⟩

theorem mem_polled {n : Nat} {x : Nat × Waker} (h : x ∈ s.polled n) :
    x ∈ s.pending ∧ x.1 ≠ n := by
  obtain ⟨hx, hne⟩ := List.mem_filter.mp h
  exact ⟨hx, bne_iff_ne.mp hne⟩

theorem inv_poll {n : Nat} {waker : Waker} (h : Inv s) (hs : step s (.poll n waker) = some t) :
    Inv t := by
  obtain ⟨hn, ⟨tx, htx, hresult, rfl⟩ | ⟨result, hsource, rfl⟩⟩ := poll_cases hs
  · obtain ⟨p, unread, hp, hcarried⟩ := h.carried tx htx
    have hstage := hcarried.stage
    rw [hresult] at hstage
    constructor
    · exact h.receive
    · intro tx' htx'
      cases htx'
      refine ⟨p, unread, hp, hcarried.good, hcarried.conserved, ?_⟩
      rw [hresult]
      exact hstage
    · exact h.begun
    · intro a ha
      refine ⟨(h.answers a ha).last_lt, ?_, (h.answers a ha).result⟩
      intro hlast
      have hnone := (h.answers a ha).gone hlast
      rw [htx] at hnone
      cases hnone
    · intro hnone
      cases hnone
    · intro tx' htx' _
      exact h.flight tx htx hresult
    · intro tx' htx' hdone
      cases htx'
      exact absurd hresult hdone
    · intro x hx
      rcases List.mem_cons.mp hx with rfl | hx
      · exact hn
      · exact h.waits x (mem_polled hx).1
  · constructor
    · exact h.receive
    · intro tx hnone
      cases hnone
    · exact h.begun
    · intro a ha
      rcases List.mem_append.mp ha with ha | ha
      · exact (h.answers a ha).answer rfl rfl rfl
      · rw [List.mem_singleton.mp ha]
        refine ⟨Nat.sub_lt (Nat.zero_lt_of_lt hn) Nat.one_pos, fun _ => rfl, ?_⟩
        rcases hsource with ⟨hnone, rfl⟩ | ⟨tx, r, htx, hresult, rfl⟩
        · left
          obtain ⟨b, hb, hlast, hgiven⟩ := h.taken hnone (List.ne_nil_of_length_pos (by omega))
          exact ⟨rfl, b, List.mem_append_left _ hb, by show b.last = _ - 1; omega, hgiven⟩
        · right
          obtain ⟨p, unread, hp, hcarried⟩ := h.carried tx htx
          refine ⟨p, ?_, hcarried.answered hresult⟩
          show s.packets[s.packets.length - 1]? = some p
          rw [h.packets_of_some htx, Nat.add_sub_cancel, State.getElem?_packets, hp]
    · intro _ hne
      rcases hsource with ⟨hnone, rfl⟩ | ⟨tx, r, htx, hresult, rfl⟩
      · obtain ⟨b, hb, hlast⟩ := h.taken hnone hne
        exact ⟨b, List.mem_append_left _ hb, hlast⟩
      · refine ⟨_, List.mem_append_right _ (List.mem_singleton_self _), ?_, ?_⟩
        · exact Nat.sub_add_cancel (Nat.zero_lt_of_lt hn)
        · obtain ⟨p, unread, hp, hcarried⟩ := h.carried tx htx
          exact (hcarried.answered hresult).ne_missing
    · intro tx hnone
      cases hnone
    · intro tx hnone
      cases hnone
    · intro x hx
      exact h.waits x (mem_polled hx).1

/-! ### The routine -/

/-- The routine goes on with the packet of the last write. -/
theorem Settled.resume {a : Answer} (h : Settled s a) {tx : TxState} (htx : s.tx = some tx)
    (hpast : t.past = s.past) (hlen : t.packets.length = s.packets.length)
    (hone : s.packets.length = s.past.length + 1) (hanswers : t.answers = s.answers) :
    Settled t a := by
  have hnot : a.last + 1 ≠ s.packets.length := by
    intro hlast
    have hnone := h.gone hlast
    rw [htx] at hnone
    cases hnone
  have hlt : a.last < s.past.length := by
    have := h.last_lt
    omega
  constructor
  · rw [hlen]
    exact h.last_lt
  · rw [hlen]
    intro hlast
    exact absurd hlast hnot
  · rw [hanswers]
    refine h.result.imp_right ?_
    rintro ⟨q, hq, hanswered⟩
    refine ⟨q, ?_, hanswered⟩
    rw [State.packets, List.getElem?_append_left hlt] at hq
    rw [State.packets, hpast, List.getElem?_append_left hlt]
    exact hq

/-- What the routine leaves of a packet in flight. -/
theorem Inv.resume (h : Inv s) {tx tx' : TxState} {p : Packet} {unread : List UInt8}
    (htx : s.tx = some tx) (hreceive : UsbRxFuture.Sound t.receive) (htx' : t.tx = some tx')
    (hpast : t.past = s.past) (hpacket : t.packet = some p) (hanswers : t.answers = s.answers)
    (hpending : t.pending = s.pending) (hcarried : Carried tx' p unread)
    (hflight : tx'.result = none → t.mask5 = true ∧ (t.txe = true ∨ t.flag5 = true))
    (hfinished : tx'.result ≠ none → t.mask5 = false) : Inv t := by
  have hone := h.packets_of_some htx
  have hlen : t.packets.length = s.packets.length := by
    rw [State.packets, hpast, hpacket, List.length_append, hone]
    rfl
  constructor
  · exact hreceive
  · intro tx'' htx''
    rw [htx'] at htx''
    cases htx''
    exact ⟨p, unread, hpacket, hcarried⟩
  · intro q hq
    rw [State.packets, hpast, hpacket] at hq
    rcases List.mem_append.mp hq with hq | hq
    · exact h.begun q (List.mem_append_left _ hq)
    · rw [List.mem_singleton.mp hq]
      exact hcarried.begun
  · intro a ha
    rw [hanswers] at ha
    exact (h.answers a ha).resume htx hpast hlen hone hanswers
  · intro hnone
    rw [htx'] at hnone
    cases hnone
  · intro tx'' htx'' hresult
    rw [htx'] at htx''
    cases htx''
    exact hflight hresult
  · intro tx'' htx'' hresult
    rw [htx'] at htx''
    cases htx''
    exact hfinished hresult
  · rw [hpending, hlen]
    exact h.waits

/-- A packet whose interrupt is not masked is in flight. -/
theorem Inv.result_eq_none (h : Inv s) (hmask : s.mask5 = true) {tx : TxState}
    (htx : s.tx = some tx) : tx.result = none := by
  by_contra hdone
  rw [h.finished tx htx hdone] at hmask
  cases hmask

/-- What the routine does: nothing without a state, the next byte, or the end of the packet. -/
theorem int5_cases (h : Inv s) (hs : step s .int5 = some t) :
    s.mask5 = true ∧ s.flag5 = true ∧
      ((s.tx = none ∧ t = s.setExt (txIntDisable (s.ext.writeEifr txExtInt5))) ∨
        (∃ tx p byte rest buffer, s.tx = some tx ∧ tx.result = none ∧ s.packet = some p ∧
          Carried tx p (byte :: rest) ∧ Good ⟨buffer, rest⟩ ∧
          t = ({ s.setExt (s.ext.writeEifr txExtInt5) with
            tx := some { tx with buffer := buffer } }).call (some (.writeByte byte))) ∨
        ∃ tx p, s.tx = some tx ∧ tx.result = none ∧ s.packet = some p ∧ Carried tx p [] ∧
          t = ({ s.setExt (txIntDisable (s.ext.writeEifr txExtInt5)) with
            tx := some ⟨tx.buffer, some (.ok ()), none⟩
            woken := s.woken ++ tx.waker.toList }).call (some .flush)) := by
  simp only [step] at hs
  split at hs
  · rename_i hruns
    have hmask : s.mask5 = true := (txIntEnabled_iff s.ext).mp hruns.1
    refine ⟨hmask, (flag5_iff s.eifr).mp hruns.2, ?_⟩
    cases htx : s.tx with
    | none =>
      simp only [htx, UsbFt240.int5] at hs
      cases hs
      left
      refine ⟨rfl, ?_⟩
      simp only [Option.toList_none, List.append_nil, State.call, State.setExt, htx]
    | some tx =>
      obtain ⟨p, unread, hp, hcarried⟩ := h.carried tx htx
      have hresult := h.result_eq_none hmask htx
      right
      rcases int5_spec (s.ext.writeEifr txExtInt5) hcarried with
        ⟨byte, rest, buffer, rfl, hgood, heq⟩ | ⟨rfl, heq⟩
      · simp only [htx, heq, Option.toList_none, List.append_nil] at hs
        left
        exact ⟨tx, p, byte, rest, buffer, rfl, hresult, hp, hcarried, hgood,
          (Option.some.inj hs).symm⟩
      · simp only [htx, heq] at hs
        right
        exact ⟨tx, p, rfl, hresult, hp, hcarried, (Option.some.inj hs).symm⟩
  · cases hs

theorem inv_int5 (h : Inv s) (hs : step s .int5 = some t) : Inv t := by
  obtain ⟨hmask, -, hcases⟩ := int5_cases h hs
  rcases hcases with ⟨htx, rfl⟩ |
    ⟨tx, p, byte, rest, buffer, htx, hresult, hp, hcarried, hgood, rfl⟩ |
    ⟨tx, p, htx, hresult, hp, hcarried, rfl⟩
  · constructor
    · exact sound_setEimsk h.receive _
    · exact h.carried
    · exact h.begun
    · intro a ha
      exact (h.answers a ha).frame rfl rfl rfl
    · exact h.taken
    · intro tx hsome
      rw [show s.tx = some tx from hsome] at htx
      cases htx
    · intro tx hsome
      rw [show s.tx = some tx from hsome] at htx
      cases htx
    · exact h.waits
  · have hstrobed : s.packet.map (fun q => q.strobe byte s.txe) = some (p.strobe byte s.txe) := by
      rw [hp]
      rfl
    refine h.resume htx (sound_setEimsk h.receive _) rfl rfl hstrobed rfl rfl
      (hcarried.strobe hresult hgood s.txe) ?_ ?_
    · intro _
      exact ⟨hmask, .inl rfl⟩
    · intro hdone
      exact absurd hresult hdone
  · have hflushed : s.packet.map Packet.flush = some p.flush := by
      rw [hp]
      rfl
    refine h.resume htx (sound_setEimsk h.receive _) rfl rfl hflushed rfl rfl
      (hcarried.flush hresult) nofun ?_
    intro _
    exact ((getLsbD_txIntDisable _ 5).1).trans (Bool.and_false _)

/-- **Step lemma.** -/
theorem inv_step {act : Act} (h : Inv s) (hs : step s act = some t) : Inv t := by
  cases act with
  | receive act => exact inv_receive h hs
  | rxfFalls => exact inv_rxfFalls h hs
  | txeFalls => exact inv_txeFalls h hs
  | write b => exact inv_write h hs
  | poll n waker => exact inv_poll h hs
  | int5 => exact inv_int5 h hs

/-! ## The end of a packet -/

/-- A routine that is due runs to its end. -/
theorem exists_int5 (h : Inv s) (hmask : s.mask5 = true) (hflag : s.flag5 = true) :
    ∃ t, step s .int5 = some t := by
  have hruns : txIntEnabled s.ext = true ∧ s.eifr &&& txExtInt5 ≠ 0 :=
    ⟨(txIntEnabled_iff s.ext).mpr hmask, (flag5_iff _).mpr hflag⟩
  simp only [step, if_pos hruns]
  cases htx : s.tx with
  | none => exact ⟨_, rfl⟩
  | some tx =>
    obtain ⟨p, unread, -, hcarried⟩ := h.carried tx htx
    rcases int5_spec (s.ext.writeEifr txExtInt5) hcarried with
      ⟨byte, rest, buffer, -, -, heq⟩ | ⟨-, heq⟩
    · rw [heq]
      exact ⟨_, rfl⟩
    · rw [heq]
      exact ⟨_, rfl⟩

/-- The chip gets ready once more, and the routine runs. -/
def readyOnce : List Act := [.txeFalls, .int5]

/-- The state in which the routine runs. -/
def State.ready (s : State) : State := { s with txe := false, eifr := s.eifr ||| txExtInt5 }

theorem exists_readyOnce (h : Inv s) {tx : TxState} (htx : s.tx = some tx)
    (hresult : tx.result = none) (htxe : s.txe = true) :
    ∃ t, runFun step s readyOnce = some t ∧ Inv s.ready ∧ step s.ready .int5 = some t := by
  have hfalls : step s .txeFalls = some s.ready := if_pos htxe
  have hready : Inv s.ready := inv_txeFalls h hfalls
  have hflag : s.ready.flag5 = true := by
    show (s.eifr ||| txExtInt5).getLsbD 5 = true
    rw [txExtInt5_eq, getLsbD_setFlag _ (by decide)]
    exact Bool.or_true _
  obtain ⟨t, ht⟩ := exists_int5 hready (h.flight tx htx hresult).1 hflag
  refine ⟨t, ?_, hready, ht⟩
  rw [readyOnce, runFun_cons_of_eq hfalls, runFun_cons_of_eq ht]
  rfl

/-- **A packet in flight is sent** by as many routines as bytes are left, and one more. -/
theorem exists_sent (h : Inv s) {tx : TxState} (htx : s.tx = some tx) (hresult : tx.result = none)
    {p : Packet} (hp : s.packet = some p) {unread : List UInt8} (hcarried : Carried tx p unread)
    (htxe : s.txe = true) :
    ∃ t tx' q, runFun step s (List.replicate (unread.length + 1) readyOnce).flatten = some t ∧
      t.tx = some tx' ∧ tx'.result = some (.ok ()) ∧ t.past = s.past ∧ t.packet = some q ∧
      q.bytes = p.submitted ∧ q.flushes = 1 := by
  induction unread generalizing s tx p with
  | nil =>
    obtain ⟨t, hrun, hready, ht⟩ := exists_readyOnce h htx hresult htxe
    have hall : runFun step s (List.replicate (([] : List UInt8).length + 1) readyOnce).flatten =
        some t := by
      rw [List.length_nil, List.replicate_one, List.flatten_singleton, hrun]
    obtain ⟨-, -, ⟨hnone, -⟩ | ⟨_, _, byte, rest, _, hsome, -, hp', hmore, -⟩ |
      ⟨_, _, hsome, -, hp', -, rfl⟩⟩ := int5_cases hready ht
    · rw [show s.ready.tx = some tx from htx] at hnone
      cases hnone
    · rw [show s.ready.tx = some tx from htx] at hsome
      rw [show s.ready.packet = some p from hp] at hp'
      cases hsome
      cases hp'
      cases hcarried.unique hmore
    · rw [show s.ready.packet = some p from hp] at hp'
      cases hp'
      have hstage := hcarried.stage
      rw [hresult] at hstage
      have hconserved := hcarried.conserved
      rw [List.append_nil] at hconserved
      refine ⟨_, _, p.flush, hall, rfl, rfl, rfl, ?_, hconserved, congrArg (· + 1) hstage.2⟩
      show s.packet.map Packet.flush = some p.flush
      rw [hp]
      rfl
  | cons byte rest ih =>
    obtain ⟨u, hrun, hready, hu⟩ := exists_readyOnce h htx hresult htxe
    have hinv : Inv u := inv_int5 hready hu
    obtain ⟨-, -, ⟨hnone, -⟩ | ⟨_, _, _, _, buffer, hsome, -, hp', hmore, hgood, rfl⟩ |
      ⟨_, _, hsome, -, hp', hdone, -⟩⟩ := int5_cases hready hu
    · rw [show s.ready.tx = some tx from htx] at hnone
      cases hnone
    · rw [show s.ready.tx = some tx from htx] at hsome
      rw [show s.ready.packet = some p from hp] at hp'
      cases hsome
      cases hp'
      obtain ⟨rfl, rfl⟩ := List.cons.inj (hcarried.unique hmore)
      have hstage := hcarried.stage
      rw [hresult] at hstage
      have hstrobed : s.packet.map (fun q => q.strobe byte false) = some (p.strobe byte false) := by
        rw [hp]
        rfl
      obtain ⟨t, tx', q, hrest, htx', hok, hpast, hq, hbytes, hflushes⟩ :=
        ih hinv rfl hresult hstrobed (hcarried.strobe hresult hgood false) rfl
      refine ⟨t, tx', q, ?_, htx', hok, hpast, hq, ?_, hflushes⟩
      · rw [List.length_cons, List.replicate_succ, List.flatten_cons, runFun_append, hrun]
        exact hrest
      · rw [hbytes, Packet.submitted_strobe hstage.1]
    · rw [show s.ready.tx = some tx from htx] at hsome
      rw [show s.ready.packet = some p from hp] at hp'
      cases hsome
      cases hp'
      cases hcarried.unique hdone

/-! ## Futures -/

/-- The future that is polled is the one of the last write, and has not answered yet. -/
def Awaits (s : State) : Act → Prop
  | .poll n _ => n + 1 = s.packets.length ∧ ∀ a ∈ s.answers, a.future ≠ n
  | _ => True

instance (s : State) (act : Act) : Decidable (Awaits s act) :=
  match act with
  | .poll _ _ => inferInstanceAs (Decidable (_ ∧ _))
  | .receive _ | .rxfFalls | .txeFalls | .write _ | .int5 => inferInstanceAs (Decidable True)

/-- Every answer is to the future of its packet, and the future that waits is woken at the end. -/
structure Owned (s : State) : Prop where
  own : ∀ a ∈ s.answers, a.future = a.last ∧ a.result ≠ .error .missingGlobalState
  pending : ∀ n w, (n, w) ∈ s.pending → n + 1 = s.packets.length → ∃ tx, s.tx = some tx ∧
    ((tx.result = none ∧ tx.waker = some w) ∨ (tx.result ≠ none ∧ w ∈ s.woken))

theorem Owned.frame (h : Owned s) (hsame : SameTx s t) : Owned t := by
  constructor
  · rw [hsame.answers]
    exact h.own
  · rw [hsame.pending, hsame.packets, hsame.tx, hsame.woken]
    exact h.pending

theorem owned_write {b : Outgoing} (hinv : Inv s) (h : Owned s)
    (hs : step s (.write b) = some t) : Owned t := by
  have hmore : ∀ p : Packet, ∀ n w, (n, w) ∈ s.pending →
      n + 1 ≠ (s.packets ++ [p]).length := by
    intro p n w hw hlast
    have hlt := hinv.waits (n, w) hw
    rw [List.length_append, List.length_singleton] at hlast
    change n < s.packets.length at hlt
    omega
  simp only [step] at hs
  rcases write_spec b s.txe s.ext with ⟨-, panic, heq⟩ | ⟨-, -, heq⟩ |
    ⟨-, byte, rest, buffer, -, -, heq⟩
  · rw [heq] at hs
    cases hs
  · rw [heq] at hs
    cases hs
    exact ⟨h.own, fun n w hw hlast => absurd hlast (hmore _ n w hw)⟩
  · rw [heq] at hs
    cases hs
    exact ⟨h.own, fun n w hw hlast => absurd hlast (hmore _ n w hw)⟩

theorem owned_poll {n : Nat} {waker : Waker} (hinv : Inv s) (h : Owned s)
    (hg : Awaits s (.poll n waker)) (hs : step s (.poll n waker) = some t) : Owned t := by
  obtain ⟨hlast, hnew⟩ := hg
  obtain ⟨hn, ⟨tx, htx, hresult, rfl⟩ | ⟨result, hsource, rfl⟩⟩ := poll_cases hs
  · constructor
    · exact h.own
    · intro m w hw hm
      rcases List.mem_cons.mp hw with hw | hw
      · cases hw
        exact ⟨_, rfl, .inl ⟨hresult, rfl⟩⟩
      · change m + 1 = s.packets.length at hm
        have hne : m ≠ n := (mem_polled hw).2
        omega
  · constructor
    · intro a ha
      rcases List.mem_append.mp ha with ha | ha
      · exact h.own a ha
      · rw [List.mem_singleton.mp ha]
        refine ⟨by show n = _ - 1; omega, ?_⟩
        rcases hsource with ⟨hnone, -⟩ | ⟨tx, r, htx, hresult, rfl⟩
        · -- the state is gone only behind an answer to this future
          obtain ⟨b, hb, hb', hgiven⟩ := hinv.taken hnone (List.ne_nil_of_length_pos (by omega))
          have hsame := (h.own b hb).1
          exact absurd (by omega) (hnew b hb)
        · obtain ⟨p, unread, -, hcarried⟩ := hinv.carried tx htx
          exact (hcarried.answered hresult).ne_missing
    · intro m w hw hm
      change m + 1 = s.packets.length at hm
      have hne : m ≠ n := (mem_polled hw).2
      omega

theorem owned_int5 (hinv : Inv s) (h : Owned s) (hs : step s .int5 = some t) : Owned t := by
  obtain ⟨-, -, hcases⟩ := int5_cases hinv hs
  rcases hcases with ⟨htx, rfl⟩ | ⟨tx, p, byte, rest, buffer, htx, hresult, hp, -, -, rfl⟩ |
    ⟨tx, p, htx, hresult, hp, -, rfl⟩
  · exact ⟨h.own, h.pending⟩
  · refine ⟨h.own, ?_⟩
    intro n w hw hn
    rw [State.length_packets_call] at hn
    obtain ⟨tx', htx', hwaits⟩ := h.pending n w hw hn
    rw [htx] at htx'
    cases htx'
    rcases hwaits with ⟨-, hwaker⟩ | ⟨hdone, -⟩
    · exact ⟨_, rfl, .inl ⟨hresult, hwaker⟩⟩
    · exact absurd hresult hdone
  · refine ⟨h.own, ?_⟩
    intro n w hw hn
    rw [State.length_packets_call] at hn
    obtain ⟨tx', htx', hwaits⟩ := h.pending n w hw hn
    rw [htx] at htx'
    cases htx'
    refine ⟨_, rfl, .inr ⟨nofun, ?_⟩⟩
    rcases hwaits with ⟨-, hwaker⟩ | ⟨hdone, -⟩
    · refine List.mem_append_right _ ?_
      rw [hwaker]
      exact List.mem_singleton_self w
    · exact absurd hresult hdone

theorem owned_step {act : Act} (hinv : Inv s) (h : Owned s) (hg : Awaits s act)
    (hs : step s act = some t) : Owned t := by
  cases act with
  | receive act =>
    obtain ⟨hr, -, -, hsame, -⟩ := receive_cases hs
    exact h.frame (hsame (receive_effect hinv.receive hr).mask5)
  | rxfFalls =>
    simp only [step] at hs
    split at hs
    · cases hs
      exact ⟨h.own, h.pending⟩
    · cases hs
  | txeFalls =>
    simp only [step] at hs
    split at hs
    · cases hs
      exact ⟨h.own, h.pending⟩
    · cases hs
  | write b => exact owned_write hinv h hs
  | poll n waker => exact owned_poll hinv h hg hs
  | int5 => exact owned_int5 hinv h hs

end Steps

/-! ## Whole runs -/

section Runs

variable {s : State} {e : ExtInt} {rxf txe : Bool} {ptr capacity : Nat} {storage : List UInt8}

theorem inv_start (e : ExtInt) (rxf txe : Bool) (ptr : Nat) (hcap : 1 ≤ capacity)
    (hlen : storage.length = capacity) : Inv (start e rxf txe ptr capacity storage) := by
  constructor
  · exact UsbRxFuture.sound_start _ ptr hcap hlen
  · intro tx htx
    cases htx
  · intro p hp
    cases hp
  · intro a ha
    cases ha
  · intro _ hne
    exact absurd rfl hne
  · intro tx htx
    cases htx
  · intro tx htx
    cases htx
  · intro x hx
    cases hx

theorem inv_of_reachable (hcap : 1 ≤ capacity) (hlen : storage.length = capacity)
    (h : (system e rxf txe ptr capacity storage).Reachable s) : Inv s := by
  refine h.invariant (I := Inv) ?_ ?_
  · rintro _ rfl
    exact inv_start e rxf txe ptr hcap hlen
  · intro u act v hu hv
    exact inv_step hu hv

theorem owned_of_reachedWhile (hcap : 1 ≤ capacity) (hlen : storage.length = capacity)
    (h : (system e rxf txe ptr capacity storage).ReachedWhile Awaits s) : Owned s := by
  have hboth : Inv s ∧ Owned s := by
    refine h.invariant (I := fun u => Inv u ∧ Owned u) ?_ ?_
    · rintro _ rfl
      refine ⟨inv_start e rxf txe ptr hcap hlen, ?_, ?_⟩
      · intro a ha
        cases ha
      · intro n w hw
        cases hw
    · rintro u act v ⟨hinv, howned⟩ hg hv
      exact ⟨inv_step hinv hv, owned_step hinv howned hg hv⟩
  exact hboth.2

theorem write_eq_none_iff (s : State) (b : Outgoing) :
    step s (.write b) = none ↔ b.Traps s.txe := by
  rcases write_spec b s.txe s.ext with ⟨htraps, panic, heq⟩ | ⟨hnot, -, heq⟩ |
    ⟨hnot, byte, rest, buffer, -, -, heq⟩
  · simp only [step, heq, htraps]
  · simp only [step, heq, hnot, reduceCtorEq]
  · simp only [step, heq, hnot, reduceCtorEq]

/-- Two bytes in a buffer of three places. -/
def twoBytes : Outgoing := ⟨⟨0, 2, 2, [1, 2, 0]⟩, rfl, by decide⟩

def oneByte : Outgoing := ⟨⟨0, 1, 1, [5]⟩, rfl, by decide⟩

/-- Two bytes are written to a busy chip and sent to their end, while a byte comes in; then one is
written to a ready chip and sent; then an empty buffer is written. -/
def sendThree : List Act :=
  [.write twoBytes, .poll 0 7, .rxfFalls, .txeFalls, .int5, .receive (.int6 9), .txeFalls, .int5,
    .txeFalls, .int5, .poll 0 7, .write oneByte, .poll 1 8, .txeFalls, .int5, .poll 1 8,
    .write ⟨⟨0, 0, 0, []⟩, rfl, by decide⟩, .poll 2 7]

/-- A second write cuts the first packet off behind its first byte. The future of the first takes
the answer for the second, whose own future finds no state. -/
theorem not_answered_cutOff :
    ∃ s, (system ⟨0, 0⟩ true true 0 4 [0, 0, 0, 0]).Reachable s ∧
      s.packets.map Packet.bytes = [[1], [1, 2, 0x2a]] ∧
      s.answers.map (fun a => (a.future, a.last, a.result.isOk)) =
        [(0, 1, true), (1, 1, false)] := by
  obtain ⟨s, hs, htest⟩ := exists_reachable_of_runFun (f := step)
    [.write twoBytes, .poll 0 7, .write twoBytes, .poll 1 8, .txeFalls, .int5, .txeFalls, .int5,
      .txeFalls, .int5, .poll 0 7, .poll 1 8]
    (fun s => s.packets.map Packet.bytes == [[1], [1, 2, 0x2a]] &&
      s.answers.map (fun a => (a.future, a.last, a.result.isOk)) == [(0, 1, true), (1, 1, false)])
    (.init (M := system ⟨0, 0⟩ true true 0 4 [0, 0, 0, 0]) rfl) (by decide +kernel)
  rw [Bool.and_eq_true, beq_iff_eq, beq_iff_eq] at htest
  exact ⟨s, hs, htest.1, htest.2⟩

end Runs

end AvrBridge.UsbDuplex
