import AvrBridge.FlatBuffer
import AvrBridge.Lts

/-! Runs of a `FlatBuffer`. Free space is computed from `len`, the storage that
is left from `w_pos`; the two part after the first read. `Fits` says that a write
which finds room also finds storage, and decides whether a step keeps the law. -/

namespace AvrBridge.FlatBuffer

open Rust Window Lts

/-- A call on the buffer. `asMut` hands out the tail of the storage, over which the
caller may write. -/
inductive Op where
  | reset
  | readByte
  | writeByte (byte : UInt8)
  | write (bytes : List UInt8)
  | writeAll (bytes : List UInt8)
  | asRef
  | asMut (patch : List UInt8)
  deriving DecidableEq, Repr

inductive Answer where
  | reset (capacity : Nat)
  | readByte (result : Except BufferError UInt8)
  | write (result : Except BufferError Nat)
  | asRef (bytes : List UInt8)
  | asMut (bytes : List UInt8)
  deriving DecidableEq, Repr

/-- The buffer and the accepted bytes that have not been read. -/
structure State where
  flat : FlatBuffer
  unread : List UInt8
  deriving DecidableEq, Repr

/-- The unread bytes after a write of `bytes` with this result. -/
def State.accept (s : State) (bytes : List UInt8) : Except BufferError Nat → List UInt8
  | .ok n => s.unread ++ bytes.take n
  | .error _ => s.unread

/-- One call; a trap leaves no state. -/
def step (s : State) : Op → Except Panic (Answer × State)
  | .reset => .ok (.reset s.flat.reset.1, ⟨s.flat.reset.2, []⟩)
  | .readByte => do
      let (r, f) ← s.flat.readByte
      return (.readByte r, ⟨f, if r.toBool then s.unread.tail else s.unread⟩)
  | .writeByte byte => do
      let (r, f) ← s.flat.writeByte byte
      return (.write (r.map fun _ => 1), ⟨f, s.accept [byte] (r.map fun _ => 1)⟩)
  | .write bytes => do
      let (r, f) ← s.flat.write bytes
      return (.write r, ⟨f, s.accept bytes r⟩)
  | .writeAll bytes => do
      let (r, f) ← s.flat.writeAll bytes
      return (.write r, ⟨f, s.accept bytes r⟩)
  | .asRef => do
      let bytes ← s.flat.asRef
      return (.asRef bytes, s)
  | .asMut patch => do
      let bytes ← s.flat.asMut
      let buf := splice s.flat.buf s.flat.wPos (patch.take bytes.length)
      return (.asMut bytes, { s with flat := { s.flat with buf := buf } })

def system (storage : List UInt8) : System State Op :=
  .ofFun ⟨.new storage, []⟩ fun s op => ((step s op).toOption).map (·.2)

/-- The positions agree, lie in the storage, and delimit the unread bytes. -/
structure Good (s : State) : Prop where
  wPos_eq : s.flat.wPos = s.flat.rPos + s.flat.len
  wPos_le : s.flat.wPos ≤ s.flat.buf.length
  asRef_eq : s.flat.asRef = .ok s.unread

/-- The bytes a call asks to write. -/
def Op.payload : Op → Option (List UInt8)
  | .writeByte byte => some [byte]
  | .write bytes | .writeAll bytes => some bytes
  | _ => none

/-- A write is accepted in full when the free space allows, and an error changes nothing. -/
def WriteLaw (s : State) (op : Op) (answer : Answer) (t : State) : Prop :=
  ∀ bytes, op.payload = some bytes → ∀ free, s.flat.freeSpace = .ok free →
    (bytes.length ≤ free → answer = .write (.ok bytes.length)) ∧
    (answer ≠ .write (.ok bytes.length) → free < bytes.length) ∧
    ∀ e, answer = .write (.error e) → t.flat = s.flat

/-- A read takes the oldest unread byte, `as_ref` shows all of them. -/
def ReadLaw (s : State) : Answer → State → Prop
  | .readByte (.ok byte), t => s.unread = byte :: t.unread
  | .readByte (.error e), t => e = .bufferEmpty ∧ s.unread = [] ∧ t = s
  | .asRef bytes, _ => bytes = s.unread
  | _, _ => True

/-- What the buffer promises of one call: it returns, in a good state, by the laws. -/
def Keeps (s : State) (op : Op) : Prop :=
  ∃ answer t, step s op = .ok (answer, t) ∧ Good t ∧ WriteLaw s op answer t ∧ ReadLaw s answer t

/-- A write that is not refused fits behind the write position, and `write` is not
called with nothing to write on a full buffer. -/
def Fits (s : State) : Op → Prop
  | .writeByte _ => s.flat.isFull = true ∨ s.flat.wPos + 1 ≤ s.flat.buf.length
  | .write bytes =>
      if s.flat.isFull then bytes ≠ []
      else s.flat.wPos + min bytes.length (s.flat.buf.length - s.flat.len) ≤ s.flat.buf.length
  | .writeAll bytes =>
      s.flat.buf.length - s.flat.len < bytes.length ∨
        s.flat.wPos + bytes.length ≤ s.flat.buf.length
  | _ => True

instance (s : State) (op : Op) : Decidable (Fits s op) :=
  match op with
  | .writeByte _ => inferInstanceAs (Decidable (_ ∨ _))
  | .write bytes =>
      if h : s.flat.isFull = true then decidable_of_iff (bytes ≠ []) (by rw [Fits, if_pos h])
      else decidable_of_iff (s.flat.wPos + min bytes.length (s.flat.buf.length - s.flat.len) ≤
        s.flat.buf.length) (by rw [Fits, if_neg h])
  | .writeAll _ => inferInstanceAs (Decidable (_ ∨ _))
  | .reset | .readByte | .asRef | .asMut _ => inferInstanceAs (Decidable True)

/-! ## What the calls compute in a good state -/

/-- The buffer after storing all of `xs`. -/
def stored (f : FlatBuffer) (xs : List UInt8) : FlatBuffer :=
  { f with
    buf := splice f.buf f.wPos xs, wPos := f.wPos + xs.length, len := f.len + xs.length }

section Good

variable {s : State}

theorem Good.len_le (h : Good s) : s.flat.len ≤ s.flat.buf.length := by
  have := h.wPos_eq
  have := h.wPos_le
  omega

theorem Good.freeSpace_eq (h : Good s) :
    s.flat.freeSpace = .ok (s.flat.buf.length - s.flat.len) := if_pos h.len_le

theorem Good.unread_eq (h : Good s) :
    s.unread = (s.flat.buf.drop s.flat.rPos).take s.flat.len := by
  have hw := h.wPos_eq
  have hle := h.wPos_le
  have ha := h.asRef_eq
  rw [asRef, sliceOf, if_pos (by omega), Nat.add_sub_cancel_left] at ha
  exact (Except.ok.inj ha).symm

theorem Good.length_unread (h : Good s) : s.unread.length = s.flat.len := by
  have hw := h.wPos_eq
  have hle := h.wPos_le
  rw [h.unread_eq, List.length_take, List.length_drop]
  omega

/-- A state is good as soon as its positions are and the unread bytes lie between them. -/
theorem good_of_eq {f : FlatBuffer} {unread : List UInt8} (hw : f.wPos = f.rPos + f.len)
    (hle : f.wPos ≤ f.buf.length) (hu : unread = (f.buf.drop f.rPos).take f.len) :
    Good ⟨f, unread⟩ := by
  refine ⟨hw, hle, ?_⟩
  change sliceOf f.buf f.rPos (f.rPos + f.len) = .ok unread
  rw [sliceOf, if_pos (by omega), Nat.add_sub_cancel_left, hu]

theorem good_new (storage : List UInt8) : Good ⟨new storage, []⟩ :=
  good_of_eq rfl (Nat.zero_le _) (by simp [new])

theorem good_reset (s : State) : Good ⟨s.flat.reset.2, []⟩ :=
  good_of_eq rfl (Nat.zero_le _) (by simp [reset])

/-- Bytes stored at the write position follow the unread ones. -/
theorem Good.stored (h : Good s) {xs : List UInt8}
    (hx : s.flat.wPos + xs.length ≤ s.flat.buf.length) :
    Good ⟨s.flat.stored xs, s.unread ++ xs⟩ := by
  have hw := h.wPos_eq
  have hlen : (splice s.flat.buf s.flat.wPos xs).length = s.flat.buf.length := length_splice hx
  refine good_of_eq (by simp only [FlatBuffer.stored]; omega)
    (by simp only [FlatBuffer.stored, hlen]; exact hx) ?_
  have hold : (s.flat.buf.take s.flat.wPos).drop s.flat.rPos = s.unread := by
    rw [List.drop_take, h.unread_eq, hw, Nat.add_sub_cancel_left]
  simp only [FlatBuffer.stored, splice]
  rw [List.append_assoc, List.drop_append_of_le_length (by rw [List.length_take]; omega), hold,
    ← List.append_assoc]
  exact (List.take_left' (by rw [List.length_append, h.length_unread])).symm

/-- The storage behind the write position is not part of the unread bytes. -/
theorem Good.patched (h : Good s) {xs : List UInt8}
    (hx : s.flat.wPos + xs.length ≤ s.flat.buf.length) :
    Good ⟨{ s.flat with buf := splice s.flat.buf s.flat.wPos xs }, s.unread⟩ := by
  have hw := h.wPos_eq
  have hlen : (splice s.flat.buf s.flat.wPos xs).length = s.flat.buf.length := length_splice hx
  refine good_of_eq hw (by rw [hlen]; exact h.wPos_le) ?_
  have hold : (s.flat.buf.take s.flat.wPos).drop s.flat.rPos = s.unread := by
    rw [List.drop_take, h.unread_eq, hw, Nat.add_sub_cancel_left]
  simp only [splice]
  rw [List.append_assoc, List.drop_append_of_le_length (by rw [List.length_take]; omega), hold]
  exact (List.take_left' h.length_unread).symm

theorem Good.readByte_eq (h : Good s) {byte : UInt8} {rest : List UInt8}
    (hu : s.unread = byte :: rest) :
    s.flat.readByte = .ok (.ok byte, { s.flat with
      rPos := s.flat.rPos + 1, len := s.flat.len - 1 }) ∧
    Good ⟨{ s.flat with rPos := s.flat.rPos + 1, len := s.flat.len - 1 }, rest⟩ := by
  have hw := h.wPos_eq
  have hle := h.wPos_le
  have hn := h.length_unread
  rw [hu, List.length_cons] at hn
  have heq := h.unread_eq
  rw [hu, ← hn, List.drop_eq_getElem_cons (by omega), List.take_succ_cons, List.cons.injEq] at heq
  have he : s.flat.isEmpty = false := by rw [isEmpty, ← hn]; rfl
  have hbyte : index s.flat.buf s.flat.rPos = .ok byte :=
    index_ok (by rw [List.getElem?_eq_getElem (by omega), heq.1])
  have hsub : subUsize s.flat.len 1 = .ok (s.flat.len - 1) := if_pos (by omega)
  constructor
  · simp only [readByte, he, hbyte, hsub, ok_bind, Bool.false_eq_true, if_false]
    rfl
  · refine good_of_eq (by simp only; omega) hle ?_
    show rest = (s.flat.buf.drop (s.flat.rPos + 1)).take (s.flat.len - 1)
    rw [← hn, Nat.add_sub_cancel]
    exact heq.2

theorem Good.write_eq (h : Good s) (bytes : List UInt8) (hf : s.flat.isFull = false) :
    s.flat.write bytes =
      if s.flat.wPos + min bytes.length (s.flat.buf.length - s.flat.len) ≤ s.flat.buf.length then
        .ok (.ok (min bytes.length (s.flat.buf.length - s.flat.len)),
          s.flat.stored (bytes.take (min bytes.length (s.flat.buf.length - s.flat.len))))
      else .error .indexOutOfBounds := by
  have hk : min bytes.length (s.flat.buf.length - s.flat.len) ≤ bytes.length := Nat.min_le_left ..
  simp only [write, hf, h.freeSpace_eq, ok_bind, sliceOf_zero hk, Bool.false_eq_true, if_false,
    copyFromSlice]
  split
  · rename_i hc
    rw [if_pos hc.2, FlatBuffer.stored, List.length_take, Nat.min_eq_left hk]
    rfl
  · rename_i hc
    rw [if_neg fun hle => hc ⟨Nat.le_add_right .., hle⟩]
    rfl

theorem Good.writeAll_eq (h : Good s) (bytes : List UInt8) :
    s.flat.writeAll bytes =
      if s.flat.buf.length - s.flat.len < bytes.length then .ok (.error .insufficientSpace, s.flat)
      else if s.flat.wPos + bytes.length ≤ s.flat.buf.length then
        .ok (.ok bytes.length, s.flat.stored bytes)
      else .error .indexOutOfBounds := by
  simp only [writeAll, h.freeSpace_eq, ok_bind]
  split
  · rfl
  · simp only [sliceOf_zero (Nat.le_refl _), ok_bind, copyFromSlice, List.take_length]
    split
    · rename_i hc
      rw [if_pos hc.2]
      rfl
    · rename_i hc
      rw [if_neg fun hle => hc ⟨Nat.le_add_right .., hle⟩]
      rfl

theorem writeByte_eq (byte : UInt8) (hf : s.flat.isFull = false) :
    s.flat.writeByte byte =
      if s.flat.wPos + 1 ≤ s.flat.buf.length then .ok (.ok (), s.flat.stored [byte])
      else .error .indexOutOfBounds := by
  simp only [writeByte, hf, Bool.false_eq_true, if_false]
  by_cases hw : s.flat.wPos + 1 ≤ s.flat.buf.length
  · have hset : s.flat.buf.set s.flat.wPos byte = splice s.flat.buf s.flat.wPos [byte] := by
      rw [List.set_eq_take_append_cons_drop, if_pos (show s.flat.wPos < s.flat.buf.length from hw),
        splice, List.append_assoc]
      rfl
    rw [if_pos hw, index_ok (List.getElem?_eq_getElem hw), ok_bind, hset]
    rfl
  · have hnone : index s.flat.buf s.flat.wPos = .error .indexOutOfBounds := by
      rw [index, List.getElem?_eq_none (by omega)]
    rw [if_neg hw, hnone]
    rfl

theorem Good.readByte_nil (h : Good s) (hu : s.unread = []) :
    s.flat.readByte = .ok (.error .bufferEmpty, s.flat) := by
  have hn := h.length_unread
  rw [hu] at hn
  rw [readByte, if_pos (by rw [isEmpty, ← hn]; rfl)]

theorem Good.isFull_iff (h : Good s) :
    s.flat.isFull = true ↔ s.flat.buf.length - s.flat.len = 0 := by
  have := h.len_le
  rw [isFull, beq_iff_eq]
  omega

/-! ## The law of each call -/

theorem writeLaw_of_payload_none {op : Op} {answer : Answer} {t : State}
    (hp : op.payload = none) : WriteLaw s op answer t := by
  intro bytes hb
  rw [hp] at hb
  cases hb

/-- The law of a write, for the free space of a good state. -/
theorem Good.writeLaw_iff (h : Good s) {op : Op} {bytes : List UInt8} {answer : Answer}
    {t : State} (hp : op.payload = some bytes) :
    WriteLaw s op answer t ↔
      (bytes.length ≤ s.flat.buf.length - s.flat.len → answer = .write (.ok bytes.length)) ∧
      (answer ≠ .write (.ok bytes.length) → s.flat.buf.length - s.flat.len < bytes.length) ∧
      ∀ e, answer = .write (.error e) → t.flat = s.flat := by
  constructor
  · exact fun hl => hl bytes hp _ h.freeSpace_eq
  · rintro hl bytes' hb free hf
    rw [hp] at hb
    cases hb
    rw [h.freeSpace_eq] at hf
    cases hf
    exact hl

theorem Good.keeps_readByte (h : Good s) : Keeps s .readByte := by
  cases hu : s.unread with
  | nil =>
    refine ⟨.readByte (.error .bufferEmpty), s, ?_, h, writeLaw_of_payload_none rfl, rfl, hu, rfl⟩
    rw [step, h.readByte_nil hu]
    rfl
  | cons byte rest =>
    obtain ⟨heq, hgood⟩ := h.readByte_eq hu
    refine ⟨.readByte (.ok byte), _, ?_, hgood, writeLaw_of_payload_none rfl, hu⟩
    rw [step, heq]
    simp only [ok_bind, Except.toBool, if_true, hu, List.tail_cons]
    rfl

theorem Good.keeps_asMut (h : Good s) (patch : List UInt8) : Keeps s (.asMut patch) := by
  have hs : s.flat.asMut = .ok (s.flat.buf.drop s.flat.wPos) := by
    rw [asMut, sliceOf, if_pos ⟨h.wPos_le, Nat.le_refl _⟩,
      List.take_of_length_le (Nat.le_of_eq List.length_drop)]
  refine ⟨.asMut (s.flat.buf.drop s.flat.wPos), ⟨{ s.flat with
    buf := splice s.flat.buf s.flat.wPos (patch.take (s.flat.buf.drop s.flat.wPos).length) },
    s.unread⟩, ?_, h.patched ?_, writeLaw_of_payload_none rfl, trivial⟩
  · rw [step, hs]
    rfl
  · have := h.wPos_le
    rw [List.length_take, List.length_drop]
    omega

theorem not_keeps_of_error {op : Op} {e : Panic} (hs : step s op = .error e) : ¬ Keeps s op := by
  rintro ⟨answer, t, ht, -⟩
  rw [hs] at ht
  cases ht

/-- A refused write keeps the law if it asked for more than the free space. -/
theorem Good.keeps_of_refused (h : Good s) {op : Op} {bytes : List UInt8} {e : BufferError}
    (hp : op.payload = some bytes) (hs : step s op = .ok (.write (.error e), s))
    (hfree : s.flat.buf.length - s.flat.len < bytes.length) : Keeps s op := by
  refine ⟨_, s, hs, h, (h.writeLaw_iff hp).mpr ⟨fun hle => ?_, fun _ => hfree, fun _ _ => rfl⟩,
    trivial⟩
  exact absurd hfree (Nat.not_lt.mpr hle)

/-- A write of what the free space allows keeps the law if it fits in the storage. -/
theorem Good.keeps_of_stored (h : Good s) {op : Op} {bytes : List UInt8} {n : Nat}
    (hp : op.payload = some bytes)
    (hs : step s op =
      .ok (.write (.ok n), ⟨s.flat.stored (bytes.take n), s.unread ++ bytes.take n⟩))
    (hn : n = min bytes.length (s.flat.buf.length - s.flat.len))
    (hw : s.flat.wPos + n ≤ s.flat.buf.length) : Keeps s op := by
  have hle : n ≤ bytes.length := by omega
  refine ⟨_, _, hs, h.stored (by rw [List.length_take, Nat.min_eq_left hle]; exact hw),
    (h.writeLaw_iff hp).mpr ⟨fun hfree => ?_, fun hne => ?_, nofun⟩, trivial⟩
  · rw [hn, Nat.min_eq_left hfree]
  · rcases Nat.lt_or_ge (s.flat.buf.length - s.flat.len) bytes.length with hlt | hge
    · exact hlt
    · exact absurd (by rw [hn, Nat.min_eq_left hge]) hne

theorem Good.keeps_writeByte_iff (h : Good s) (byte : UInt8) :
    Keeps s (.writeByte byte) ↔ Fits s (.writeByte byte) := by
  have hp : (Op.writeByte byte).payload = some [byte] := rfl
  cases hf : s.flat.isFull with
  | true =>
    refine iff_of_true (h.keeps_of_refused hp (e := .insufficientSpace) ?_ ?_) (.inl hf)
    · rw [step, writeByte, if_pos hf]
      rfl
    · rw [h.isFull_iff.mp hf]
      exact Nat.one_pos
  | false =>
    have hfree : s.flat.buf.length - s.flat.len ≠ 0 := by
      rw [Ne, ← h.isFull_iff, hf]
      nofun
    by_cases hw : s.flat.wPos + 1 ≤ s.flat.buf.length
    · refine iff_of_true (h.keeps_of_stored hp (n := 1) ?_ ?_ hw) (.inr hw)
      · rw [step, writeByte_eq byte hf, if_pos hw]
        rfl
      · rw [List.length_singleton]
        omega
    · refine iff_of_false (not_keeps_of_error (e := .indexOutOfBounds) ?_) ?_
      · rw [step, writeByte_eq byte hf, if_neg hw]
        rfl
      · rintro (hfull | hle)
        · rw [hf] at hfull
          cases hfull
        · exact hw hle

theorem Good.keeps_write_iff (h : Good s) (bytes : List UInt8) :
    Keeps s (.write bytes) ↔ Fits s (.write bytes) := by
  have hp : (Op.write bytes).payload = some bytes := rfl
  cases hf : s.flat.isFull with
  | true =>
    have hs : step s (.write bytes) = .ok (.write (.error .insufficientSpace), s) := by
      rw [step, write, if_pos hf]
      rfl
    rw [Fits, if_pos hf]
    constructor
    · rintro ⟨answer, t, ht, -, hlaw, -⟩ rfl
      rw [hs] at ht
      cases ht
      have := ((h.writeLaw_iff hp).mp hlaw).1 (Nat.zero_le _)
      cases this
    · intro hne
      refine h.keeps_of_refused hp hs ?_
      rw [h.isFull_iff.mp hf]
      exact List.length_pos_iff.mpr hne
  | false =>
    rw [Fits, hf, if_neg Bool.false_ne_true]
    by_cases hw : s.flat.wPos + min bytes.length (s.flat.buf.length - s.flat.len) ≤
        s.flat.buf.length
    · refine iff_of_true (h.keeps_of_stored hp ?_ rfl hw) hw
      rw [step, h.write_eq bytes hf, if_pos hw]
      rfl
    · refine iff_of_false (not_keeps_of_error (e := .indexOutOfBounds) ?_) hw
      rw [step, h.write_eq bytes hf, if_neg hw]
      rfl

theorem Good.keeps_writeAll_iff (h : Good s) (bytes : List UInt8) :
    Keeps s (.writeAll bytes) ↔ Fits s (.writeAll bytes) := by
  have hp : (Op.writeAll bytes).payload = some bytes := rfl
  by_cases hfree : s.flat.buf.length - s.flat.len < bytes.length
  · refine iff_of_true (h.keeps_of_refused hp (e := .insufficientSpace) ?_ hfree) (.inl hfree)
    rw [step, h.writeAll_eq, if_pos hfree]
    rfl
  · by_cases hw : s.flat.wPos + bytes.length ≤ s.flat.buf.length
    · refine iff_of_true (h.keeps_of_stored hp (n := bytes.length) ?_ (by omega) hw) (.inr hw)
      rw [step, h.writeAll_eq, if_neg hfree, if_pos hw, List.take_length, ok_bind]
      simp only [State.accept, List.take_length]
      rfl
    · refine iff_of_false (not_keeps_of_error (e := .indexOutOfBounds) ?_) ?_
      · rw [step, h.writeAll_eq, if_neg hfree, if_neg hw]
        rfl
      · rintro (hlt | hle)
        · exact hfree hlt
        · exact hw hle

/-- **Step lemma.** In a good state a call keeps the laws exactly if its write fits. -/
theorem Good.keeps_iff (h : Good s) (op : Op) : Keeps s op ↔ Fits s op := by
  cases op with
  | reset =>
    exact iff_of_true ⟨_, _, rfl, good_reset s, writeLaw_of_payload_none rfl, trivial⟩ trivial
  | readByte => exact iff_of_true h.keeps_readByte trivial
  | writeByte byte => exact h.keeps_writeByte_iff byte
  | write bytes => exact h.keeps_write_iff bytes
  | writeAll bytes => exact h.keeps_writeAll_iff bytes
  | asRef =>
    refine iff_of_true ⟨.asRef s.unread, s, ?_, h, writeLaw_of_payload_none rfl, rfl⟩ trivial
    rw [step, h.asRef_eq]
    rfl
  | asMut patch => exact iff_of_true (h.keeps_asMut patch) trivial

end Good

/-- **A flat buffer, exactly.** On every run of calls that fit, the positions delimit
the unread bytes, and the next call keeps the laws exactly if it fits. -/
theorem keeps_iff_fits (storage : List UInt8) (s : State)
    (h : (system storage).ReachedWhile Fits s) : Good s ∧ ∀ op, Keeps s op ↔ Fits s op := by
  have hgood : Good s := by
    refine h.invariant ?_ ?_
    · rintro s rfl
      exact good_new storage
    · intro s op t hi hfit hs
      obtain ⟨answer, u, hu, hgood, -⟩ := (hi.keeps_iff op).mpr hfit
      simp only [system, System.ofFunFrom, hu, Except.toOption, Option.map_some,
        Option.some.injEq] at hs
      exact hs ▸ hgood
  exact ⟨hgood, hgood.keeps_iff⟩

/-- Two bytes written to two places and one of them read. -/
def readOne : List Op := [.writeByte 7, .writeByte 8, .readByte]

def afterReadOne : State := ⟨⟨1, 2, 1, [7, 8]⟩, [8]⟩

theorem keeps_iff_fits_readOne :
    Good afterReadOne ∧ ∀ op, Keeps afterReadOne op ↔ Fits afterReadOne op :=
  keeps_iff_fits [0, 0] afterReadOne
    (reachedWhile_of_runFun readOne (.init rfl) (by decide))

/-- With one of two places free, a `write_byte` traps. -/
theorem keeps_false :
    ¬ ∀ (storage : List UInt8) (s : State), (system storage).Reachable s →
      Good s ∧ ∀ op, Keeps s op := by
  intro h
  have hr : (system [0, 0]).Reachable afterReadOne :=
    reachable_of_runFun readOne (.init rfl) (by decide)
  obtain ⟨answer, t, ht, -⟩ := (h _ _ hr).2 (.writeByte 9)
  cases ht

end AvrBridge.FlatBuffer
