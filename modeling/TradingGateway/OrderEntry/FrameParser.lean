/-
# `OrderEntry.FrameParser` — the ring-buffer parser

`frame_parser.hpp`.  Bytes arrive in pieces of any length and leave in frames of
64.  The two positions only grow and wrap at `2^64`; the cell of a position is
its value masked by `Capacity - 1`.

What the calls do is stated on `contents`, the buffered bytes in order:

| call | on `contents` |
| :-- | :-- |
| `append` | refused when they do not fit, else added at the end (`append_spec`) |
| `try_parse` | the first 64 of them are read as a frame (`tryParse_spec`) |

Both rest on `Linked`: the positions are two counts, the read count a multiple
of 64 and at most `Capacity` behind the write count.  That multiple of 64 is why
the 64 physical bytes at the read position are the next 64 buffered ones, and no
single call states it.
-/
import TradingGateway.Lib.Cyclic
import TradingGateway.OrderEntry.Request

namespace TradingGateway.OrderEntry

open Lib.Bytes Lib.Cyclic

/-- Every struct is overwritten only by a message of its own type. -/
structure DecodedMessage where
  header : MessageHeader := {}
  type : MessageType := ⟨0⟩
  newOrder : NewOrder := {}
  cancelOrder : CancelOrder := {}
  modifyOrder : ModifyOrder := {}
deriving DecidableEq, Repr

/-- The template parameter `Capacity` with the two `static_assert`s on it. -/
structure ParserCapacity where
  value : Nat
  aligned : value % kFrameSize = 0
  singleBit : value.isPowerOfTwo
  lt_size : value < 2 ^ 64

/-- One `std::memcpy` of `append`: offsets into the buffer and the chunk. -/
structure Memcpy where
  dst : Nat
  src : Nat
  count : Nat
deriving DecidableEq, Repr

/-- The buffer after the copy. -/
def memcpy {n : Nat} (buffer : Vector UInt8 n) (bytes : List UInt8) (m : Memcpy) :
    Vector UInt8 n :=
  Vector.ofFn fun i =>
    if m.dst ≤ i.val ∧ i.val < m.dst + m.count then byteAt bytes (m.src + (i.val - m.dst))
    else buffer[i]

structure FrameParser (C : ParserCapacity) where
  buffer : Vector UInt8 C.value
  readPos : UInt64
  writePos : UInt64

namespace FrameParser

variable {C : ParserCapacity}

inductive Status where
  | messageReady
  | needMoreData
  | protocolError
  | bufferFull
deriving DecidableEq, Repr

def fresh : FrameParser C where
  buffer := Vector.replicate C.value 0
  readPos := 0
  writePos := 0

def size (p : FrameParser C) : UInt64 := p.writePos - p.readPos

def freeSlots (p : FrameParser C) : UInt64 := UInt64.ofNat C.value - p.size

def bufferIdx (C : ParserCapacity) (index : UInt64) : Nat :=
  (index &&& UInt64.ofNat (C.value - 1)).toNat

/-- The 64 bytes that lie physically at the read position. -/
def readableSpan (p : FrameParser C) : List UInt8 :=
  (List.range kFrameSize).map fun i => cells p.buffer (bufferIdx C p.readPos + i)

/-- The copies `append` makes for a chunk of a given size: one, or two when the
chunk runs over the physical end. -/
def appendCopies (p : FrameParser C) (size : Nat) : List Memcpy :=
  if bufferIdx C p.writePos + size ≤ C.value then [⟨bufferIdx C p.writePos, 0, size⟩]
  else
    let bytesHead := C.value - bufferIdx C p.writePos
    let bytesTail := size - bytesHead
    [⟨bufferIdx C p.writePos, 0, bytesHead⟩, ⟨0, bytesHead, bytesTail⟩]

def append (p : FrameParser C) (bytes : List UInt8) : Bool × FrameParser C :=
  if bytes.isEmpty then (true, p)
  else if p.freeSlots.toNat < bytes.length then (false, p)
  else
    (true,
      { p with
        buffer := (p.appendCopies bytes.length).foldl (fun b m => memcpy b bytes m) p.buffer
        writePos := p.writePos + UInt64.ofNat bytes.length })

/-- The `switch` of `try_parse`: the payload struct of the header's type is
decoded; `none` is the `default` branch. -/
def decodePayload (span : List UInt8) (out : DecodedMessage) :
    Option (DecodeStatus × DecodedMessage) :=
  if out.header.messageType = .newOrder then
    let r := decodeNewOrder span out.newOrder
    some (r.1, { out with newOrder := r.2 })
  else if out.header.messageType = .cancelOrder then
    let r := decodeCancelOrder span out.cancelOrder
    some (r.1, { out with cancelOrder := r.2 })
  else if out.header.messageType = .modifyOrder then
    let r := decodeModifyOrder span out.modifyOrder
    some (r.1, { out with modifyOrder := r.2 })
  else if out.header.messageType = .heartbeat ∨ out.header.messageType = .logout then
    some (.ok, out)
  else none

def tryParse (p : FrameParser C) (out : DecodedMessage) :
    Status × DecodedMessage × FrameParser C :=
  if p.size.toNat < kFrameSize then (.needMoreData, out, p)
  else
    let span := p.readableSpan
    let decoded := decodeHeader (span.take kHeaderSize) {}
    if decoded.1 ≠ .ok then (.protocolError, out, p)
    else if validateHeader decoded.2 ≠ .ok then (.protocolError, out, p)
    else
      let out := { out with header := decoded.2, type := decoded.2.messageType }
      match decodePayload span out with
      | none => (.protocolError, out, p)
      | some (status, out) =>
          if status ≠ .ok then (.protocolError, out, p)
          else (.messageReady, out, { p with readPos := p.readPos + UInt64.ofNat kFrameSize })

/-- The buffered bytes, in order. -/
def contents (p : FrameParser C) : List UInt8 :=
  window (cells p.buffer) C.value p.readPos.toNat p.size.toNat

end FrameParser

/-- The request a decoded message is: its header and the struct of its type.
`none` for a type that `try_parse` never reports. -/
def DecodedMessage.request (m : DecodedMessage) : Option Request :=
  if m.type = .newOrder then some ⟨m.header, .newOrder m.newOrder⟩
  else if m.type = .cancelOrder then some ⟨m.header, .cancelOrder m.cancelOrder.clientOrderId⟩
  else if m.type = .modifyOrder then
    some ⟨m.header, .modifyOrder m.modifyOrder.clientOrderId m.modifyOrder.newPrice
      m.modifyOrder.newQuantity⟩
  else if m.type = .heartbeat then some ⟨m.header, .heartbeat⟩
  else if m.type = .logout then some ⟨m.header, .logout⟩
  else none

/-- `out` after a request has been decoded into it. -/
def DecodedMessage.overlay (out : DecodedMessage) (r : Request) : DecodedMessage :=
  let out := { out with header := r.header, type := r.header.messageType }
  match r.payload with
  | .newOrder order => { out with newOrder := order }
  | .cancelOrder id => { out with cancelOrder := { out.cancelOrder with clientOrderId := id } }
  | .modifyOrder id price quantity =>
      { out with modifyOrder :=
          { out.modifyOrder with clientOrderId := id, newPrice := price, newQuantity := quantity } }
  | .heartbeat | .logout => out

/-! ## The frame checks

`decode_header` and `validate_header` together accept exactly the request
frames, and the `switch` behind them never reaches its `default`. -/

theorem validateHeader_ok_iff {h : MessageHeader} :
    validateHeader h = .ok ↔
      h.messageType ∈ [MessageType.newOrder, .cancelOrder, .modifyOrder, .heartbeat, .logout] ∧
        h.payloadLength = 32 := by
  have hknown : isKnownRequestType h.messageType = true ↔
      h.messageType ∈ [MessageType.newOrder, .cancelOrder, .modifyOrder, .heartbeat, .logout] := by
    simp [isKnownRequestType, or_assoc]
  rw [← hknown]
  by_cases hk : isKnownRequestType h.messageType = true
  · have hexp : expectedPayloadSize h.messageType = 32 := if_pos hk
    by_cases hl : h.payloadLength = 32
    · simp [validateHeader, hk, hexp, hl]
    · simp [validateHeader, hk, hexp, hl]
  · simp [validateHeader, hk]

theorem decodePayload_eq {span : List UInt8} (hspan : span.length = kFrameSize)
    (out : DecodedMessage) (h : MessageHeader) :
    FrameParser.decodePayload span { out with header := h, type := h.messageType }
      = (readPayload h.messageType span).map fun payload => (.ok, out.overlay ⟨h, payload⟩) := by
  have hlen := Nat.le_of_eq hspan.symm
  unfold FrameParser.decodePayload readPayload
  dsimp only
  rw [decodeNewOrder_eq hlen, decodeCancelOrder_eq hlen, decodeModifyOrder_eq hlen]
  split_ifs with hn hc hm hh hb hl hb hl
  · rfl
  · rfl
  · rfl
  · rfl
  · rfl
  · exact absurd hh (not_or.mpr ⟨hb, hl⟩)
  · exact absurd (Or.inl hb) hh
  · exact absurd (Or.inr hl) hh
  · rfl

theorem request_overlay {bs : List UInt8} {r : Request} (out : DecodedMessage)
    (hr : readRequest bs = some r) : (out.overlay r).request = some r := by
  obtain ⟨-, hh, hp⟩ := header_of_readRequest hr
  obtain ⟨h, payload⟩ := r
  dsimp only at hh hp
  subst hh
  unfold readPayload at hp
  split_ifs at hp with hn hc hm hb hl <;>
    · obtain rfl := Option.some.inj hp
      simp_all [DecodedMessage.request, DecodedMessage.overlay]

theorem header_of_request {m : DecodedMessage} {r : Request} (h : m.request = some r) :
    r.header = m.header ∧ m.type = r.payload.type := by
  unfold DecodedMessage.request at h
  split_ifs at h with hn hc hm hb hl <;> obtain rfl := Option.some.inj h
  · exact ⟨rfl, hn⟩
  · exact ⟨rfl, hc⟩
  · exact ⟨rfl, hm⟩
  · exact ⟨rfl, hb⟩
  · exact ⟨rfl, hl⟩

/-! ## The capacity -/

namespace ParserCapacity

variable (C : ParserCapacity)

theorem dvd_size : C.value ∣ 2 ^ 64 := by
  obtain ⟨k, hk⟩ := C.singleBit
  have hlt : 2 ^ k < 2 ^ 64 := hk ▸ C.lt_size
  rw [hk]
  exact Nat.pow_dvd_pow 2 (Nat.le_of_lt ((Nat.pow_lt_pow_iff_right (by decide)).mp hlt))

theorem pos : 0 < C.value := by
  obtain ⟨k, hk⟩ := C.singleBit
  rw [hk]
  exact Nat.two_pow_pos k

/-- Masking a wrapped position is taking the position modulo the capacity. -/
theorem bufferIdx_eq {index : UInt64} {n : Nat} (h : index.toNat = n % 2 ^ 64) :
    FrameParser.bufferIdx C index = n % C.value := by
  obtain ⟨k, hk⟩ := C.singleBit
  have hmask : (UInt64.ofNat (C.value - 1)).toNat = C.value - 1 :=
    UInt64.toNat_ofNat_of_lt' (Nat.lt_of_le_of_lt (Nat.sub_le _ _) C.lt_size)
  rw [FrameParser.bufferIdx, UInt64.toNat_and, hmask, h, hk, Nat.and_two_pow_sub_one_eq_mod,
    ← hk, Nat.mod_mod_of_dvd _ C.dvd_size]

end ParserCapacity

/-! ## The cells a copy touches -/

section Copies

variable {N : Nat}

theorem cells_memcpy (buffer : Vector UInt8 N) (bytes : List UInt8) (m : Memcpy) {j : Nat}
    (hj : j < N) :
    cells (memcpy buffer bytes m) j =
      if m.dst ≤ j ∧ j < m.dst + m.count then byteAt bytes (m.src + (j - m.dst))
      else cells buffer j := by
  simp [cells, memcpy, hj]

theorem cells_memcpy_of_mem {buffer : Vector UInt8 N} {bytes : List UInt8} {m : Memcpy} {i : Nat}
    (hi : i < m.count) (hN : m.dst + i < N) :
    cells (memcpy buffer bytes m) (m.dst + i) = byteAt bytes (m.src + i) := by
  rw [cells_memcpy _ _ _ hN, if_pos ⟨Nat.le_add_right _ _, Nat.add_lt_add_left hi _⟩,
    Nat.add_sub_cancel_left]

theorem cells_memcpy_of_not_mem {buffer : Vector UInt8 N} {bytes : List UInt8} {m : Memcpy}
    {j : Nat} (hj : j < N) (h : j < m.dst ∨ m.dst + m.count ≤ j) :
    cells (memcpy buffer bytes m) j = cells buffer j := by
  rw [cells_memcpy _ _ _ hj, if_neg]
  rintro ⟨h1, h2⟩
  rcases h with h | h
  · exact absurd h1 (Nat.not_le.mpr h)
  · exact absurd h2 (Nat.not_lt.mpr h)

theorem cells_foldl_memcpy {bytes : List UInt8} {ms : List Memcpy} {j : Nat} (hj : j < N) :
    ∀ {buffer : Vector UInt8 N}, (∀ m ∈ ms, j < m.dst ∨ m.dst + m.count ≤ j) →
      cells (ms.foldl (fun b m => memcpy b bytes m) buffer) j = cells buffer j := by
  induction ms with
  | nil => exact fun _ => rfl
  | cons m ms ih =>
      intro buffer h
      obtain ⟨hm, hms⟩ := List.forall_mem_cons.mp h
      rw [List.foldl_cons, ih hms, cells_memcpy_of_not_mem hj hm]

end Copies

namespace FrameParser

variable {C : ParserCapacity}

/-! ## The counts behind the positions -/

/-- `r` bytes were read and `w` written, ever. -/
structure Linked (p : FrameParser C) (r w : Nat) : Prop where
  readPos_eq : p.readPos.toNat = r % 2 ^ 64
  writePos_eq : p.writePos.toNat = w % 2 ^ 64
  aligned : r % kFrameSize = 0
  read_le : r ≤ w
  write_le : w ≤ r + C.value

theorem linked_fresh : Linked (fresh : FrameParser C) 0 0 :=
  ⟨rfl, rfl, rfl, le_rfl, Nat.zero_le _⟩

namespace Linked

variable {p : FrameParser C} {r w : Nat}

theorem size_eq (h : Linked p r w) : p.size.toNat = w - r := by
  have hlt : w < r + 2 ^ 64 :=
    Nat.lt_of_le_of_lt h.write_le (Nat.add_lt_add_left C.lt_size r)
  have hpos : r % 2 ^ 64 ≤ 2 ^ 64 := Nat.le_of_lt (Nat.mod_lt _ (Nat.two_pow_pos 64))
  rw [size, UInt64.toNat_sub, h.readPos_eq, h.writePos_eq, ← distance_mod h.read_le hlt]
  congr 1
  omega

theorem size_le (h : Linked p r w) : w - r ≤ C.value :=
  Nat.sub_le_of_le_add (Nat.add_comm r _ ▸ h.write_le)

theorem freeSlots_eq (h : Linked p r w) : p.freeSlots.toNat = C.value - (w - r) := by
  have hcap : (UInt64.ofNat C.value).toNat = C.value := UInt64.toNat_ofNat_of_lt' C.lt_size
  have hle : p.size ≤ UInt64.ofNat C.value := by
    rw [UInt64.le_iff_toNat_le, hcap, h.size_eq]
    exact h.size_le
  rw [freeSlots, UInt64.toNat_sub_of_le _ _ hle, hcap, h.size_eq]

theorem contents_eq (h : Linked p r w) :
    p.contents = window (cells p.buffer) C.value r (w - r) := by
  rw [contents, h.readPos_eq, h.size_eq, ← window_mod, Nat.mod_mod_of_dvd _ C.dvd_size, window_mod]

theorem length_contents (h : Linked p r w) : p.contents.length = w - r := by
  rw [h.contents_eq, length_window]

/-- A frame at the read position ends before the physical end: the read position is a
multiple of 64, and so is the capacity. -/
theorem frame_fits (h : Linked p r w) : r % C.value + kFrameSize ≤ C.value := by
  obtain ⟨a, ha⟩ := Nat.dvd_of_mod_eq_zero C.aligned
  obtain ⟨b, hb⟩ := Nat.dvd_of_mod_eq_zero h.aligned
  have hlt : b % a < a := Nat.mod_lt _ (Nat.pos_of_mul_pos_left (ha ▸ C.pos))
  rw [ha, hb, Nat.mul_mod_mul_left, ← Nat.mul_succ]
  exact Nat.mul_le_mul_left _ hlt

/-- **The next 64 bytes are physically contiguous.** -/
theorem readableSpan_eq (h : Linked p r w) (hsize : kFrameSize ≤ w - r) :
    p.readableSpan = p.contents.take kFrameSize := by
  rw [h.contents_eq, window_take _ _ _ _ _ hsize, window_contiguous _ h.frame_fits, readableSpan,
    C.bufferIdx_eq h.readPos_eq]

theorem read (h : Linked p r w) (hsize : kFrameSize ≤ w - r) :
    Linked { p with readPos := p.readPos + UInt64.ofNat kFrameSize } (r + kFrameSize) w where
  readPos_eq := by
    rw [UInt64.toNat_add, h.readPos_eq, Nat.mod_add_mod]
    rfl
  writePos_eq := h.writePos_eq
  aligned := by rw [Nat.add_mod_right, h.aligned]
  read_le := by
    have := h.read_le
    omega
  write_le := by
    have := h.write_le
    show w ≤ r + kFrameSize + C.value
    omega

theorem contents_read (h : Linked p r w) (hsize : kFrameSize ≤ w - r) :
    contents { p with readPos := p.readPos + UInt64.ofNat kFrameSize }
      = p.contents.drop kFrameSize := by
  rw [(h.read hsize).contents_eq, h.contents_eq, window_drop _ _ _ _ _ hsize, Nat.sub_add_eq]

/-- One copy, or a head that ends at the physical end and a tail that comes round. -/
theorem appendCopies_cases (h : Linked p r w) (size : Nat) :
    (w % C.value + size ≤ C.value ∧ p.appendCopies size = [⟨w % C.value, 0, size⟩]) ∨
      (C.value < w % C.value + size ∧ p.appendCopies size
        = [⟨w % C.value, 0, C.value - w % C.value⟩,
            ⟨0, C.value - w % C.value, size - (C.value - w % C.value)⟩]) := by
  rw [appendCopies, C.bufferIdx_eq h.writePos_eq]
  split
  next hfit => exact Or.inl ⟨hfit, rfl⟩
  next hwrap => exact Or.inr ⟨Nat.not_le.mp hwrap, rfl⟩

/-- A cell that one of the copies reaches is the cell of a count behind the written ones. -/
theorem count_of_mem_appendCopies (h : Linked p r w) {size j : Nat} {m : Memcpy}
    (hsize : size ≤ C.value) (hm : m ∈ p.appendCopies size) (hlo : m.dst ≤ j)
    (hhi : j < m.dst + m.count) : ∃ k < size, (w + k) % C.value = j := by
  have ha : w % C.value < C.value := Nat.mod_lt w C.pos
  rcases h.appendCopies_cases size with ⟨hfit, heq⟩ | ⟨hwrap, heq⟩
  · rw [heq] at hm
    obtain rfl := List.mem_singleton.mp hm
    dsimp only at hlo hhi
    refine ⟨j - w % C.value, by omega, ?_⟩
    rw [add_mod_of_fit (by omega), Nat.add_sub_of_le hlo]
  · rw [heq] at hm
    rcases List.mem_pair.mp hm with rfl | rfl
    · -- the bytes before the physical end
      dsimp only at hlo hhi
      refine ⟨j - w % C.value, by omega, ?_⟩
      rw [add_mod_of_fit (by omega), Nat.add_sub_of_le hlo]
    · -- the bytes that come round
      dsimp only at hlo hhi
      refine ⟨C.value - w % C.value + j, by omega, ?_⟩
      rw [add_mod_of_wrap (by omega) (by omega)]
      omega

/-- The cells behind the written counts, as far as there is room, hold no unread byte. -/
theorem free_ne_unread (h : Linked p r w) {i k : Nat} (hi : i < w - r)
    (hk : k < C.value - (w - r)) : (w + k) % C.value ≠ (r + i) % C.value := by
  have := h.read_le
  exact (mod_ne_of_lt (by omega) (by omega)).symm

theorem cells_appendCopies (h : Linked p r w) (bytes : List UInt8)
    (hk : bytes.length ≤ C.value) {i : Nat} (hi : i < bytes.length) :
    cells ((p.appendCopies bytes.length).foldl (fun b m => memcpy b bytes m) p.buffer)
      ((w + i) % C.value) = byteAt bytes i := by
  have ha : w % C.value < C.value := Nat.mod_lt w C.pos
  rcases h.appendCopies_cases bytes.length with ⟨hfit, heq⟩ | ⟨hwrap, heq⟩
  · rw [heq, add_mod_of_fit (by omega)]
    exact (cells_memcpy_of_mem (m := ⟨w % C.value, 0, bytes.length⟩) hi
      (by show w % C.value + i < C.value; omega)).trans (by rw [Nat.zero_add])
  · -- the chunk runs over the physical end: `head` bytes before it, `tail` behind it
    rw [heq]
    generalize hh : C.value - w % C.value = head
    dsimp only [List.foldl]
    generalize ht : bytes.length - head = tail
    rcases Nat.lt_or_ge i head with hlt | hge
    · rw [add_mod_of_fit (by omega), cells_memcpy_of_not_mem (by omega)
        (Or.inr (by show 0 + tail ≤ w % C.value + i; omega))]
      exact (cells_memcpy_of_mem (m := ⟨w % C.value, 0, head⟩) hlt
        (by show w % C.value + i < C.value; omega)).trans (by rw [Nat.zero_add])
    · rw [add_mod_of_wrap (by omega) (by omega),
        show w % C.value + i - C.value = 0 + (i - head) by omega]
      exact (cells_memcpy_of_mem (m := ⟨0, head, tail⟩) (by show i - head < tail; omega)
        (by show 0 + (i - head) < C.value; omega)).trans (by rw [Nat.add_sub_of_le hge])

theorem cells_appendCopies_of_ne (h : Linked p r w) (bytes : List UInt8)
    (hk : bytes.length ≤ C.value) {j : Nat} (hj : j < C.value)
    (hne : ∀ i < bytes.length, (w + i) % C.value ≠ j) :
    cells ((p.appendCopies bytes.length).foldl (fun b m => memcpy b bytes m) p.buffer) j
      = cells p.buffer j := by
  refine cells_foldl_memcpy hj fun m hm => ?_
  by_contra hin
  simp only [not_or, Nat.not_lt, Nat.not_le] at hin
  obtain ⟨i, hi, heq⟩ := h.count_of_mem_appendCopies hk hm hin.1 hin.2
  exact hne i hi heq

theorem appended (h : Linked p r w) {bytes : List UInt8} (hk : bytes.length ≤ C.value - (w - r)) :
    Linked
        { p with
          buffer := (p.appendCopies bytes.length).foldl (fun b m => memcpy b bytes m) p.buffer
          writePos := p.writePos + UInt64.ofNat bytes.length } r (w + bytes.length) where
  readPos_eq := h.readPos_eq
  writePos_eq := by
    rw [UInt64.toNat_add, h.writePos_eq, UInt64.toNat_ofNat', ← Nat.add_mod]
  aligned := h.aligned
  read_le := h.read_le.trans (Nat.le_add_right _ _)
  write_le := by
    have h1 := h.read_le
    have h2 := h.write_le
    show w + bytes.length ≤ r + C.value
    omega

theorem contents_appended (h : Linked p r w) {bytes : List UInt8}
    (hk : bytes.length ≤ C.value - (w - r)) :
    contents
        { p with
          buffer := (p.appendCopies bytes.length).foldl (fun b m => memcpy b bytes m) p.buffer
          writePos := p.writePos + UInt64.ofNat bytes.length } = p.contents ++ bytes := by
  have h1 := h.read_le
  have h2 := h.write_le
  have hsize : bytes.length ≤ C.value := hk.trans (Nat.sub_le _ _)
  rw [(h.appended hk).contents_eq, h.contents_eq,
    show w + bytes.length - r = (w - r) + bytes.length by omega]
  have hw : r + (w - r) = w := Nat.add_sub_of_le h1
  refine window_extend bytes (by omega) ?_ ?_
  · intro i hi
    rw [hw]
    refine (h.cells_appendCopies bytes hsize hi).trans ?_
    rw [byteAt, List.getElem?_eq_getElem hi, Option.getD_some]
  · intro j hne hj
    rw [hw] at hne
    exact h.cells_appendCopies_of_ne bytes hsize hj hne

end Linked

/-! ## What the calls do -/

/-- The positions come from counts. -/
def WellFormed (p : FrameParser C) : Prop :=
  ∃ r w : Nat, Linked p r w

theorem wellFormed_fresh : WellFormed (fresh : FrameParser C) :=
  ⟨0, 0, linked_fresh⟩

@[simp] theorem contents_fresh : (fresh : FrameParser C).contents = [] := by
  rw [linked_fresh.contents_eq]
  rfl

namespace WellFormed

variable {p : FrameParser C}

theorem length_contents_le (h : p.WellFormed) : p.contents.length ≤ C.value := by
  obtain ⟨r, w, h⟩ := h
  rw [h.length_contents]
  exact h.size_le

/-- **`append`**: a chunk that fits goes behind the buffered bytes, one that does
not changes nothing. -/
theorem append_spec (h : p.WellFormed) (bytes : List UInt8) :
    (bytes.length ≤ C.value - p.contents.length ∧ (p.append bytes).1 = true ∧
        (p.append bytes).2.WellFormed ∧ (p.append bytes).2.contents = p.contents ++ bytes) ∨
      (C.value - p.contents.length < bytes.length ∧ p.append bytes = (false, p)) := by
  have hwf := h
  obtain ⟨r, w, h⟩ := h
  by_cases hempty : bytes.isEmpty
  · obtain rfl := List.isEmpty_iff.mp hempty
    have happ : p.append [] = (true, p) := rfl
    rw [happ]
    exact Or.inl ⟨Nat.zero_le _, rfl, hwf, (List.append_nil _).symm⟩
  · rw [append, if_neg hempty, h.freeSlots_eq, h.length_contents]
    split
    next hfull => exact Or.inr ⟨hfull, rfl⟩
    next hfit =>
      have hk := Nat.not_lt.mp hfit
      exact Or.inl ⟨hk, rfl, ⟨r, _, h.appended hk⟩, h.contents_appended hk⟩

/-- **`try_parse`**: the first 64 buffered bytes are read as a frame, and are
consumed when they are a request. -/
theorem tryParse_spec (h : p.WellFormed) (out : DecodedMessage) :
    (p.contents.length < kFrameSize ∧ p.tryParse out = (.needMoreData, out, p)) ∨
      (kFrameSize ≤ p.contents.length ∧ readRequest (p.contents.take kFrameSize) = none ∧
        p.tryParse out = (.protocolError, out, p)) ∨
      ∃ r p', kFrameSize ≤ p.contents.length ∧
        readRequest (p.contents.take kFrameSize) = some r ∧
        p.tryParse out = (.messageReady, out.overlay r, p') ∧ p'.WellFormed ∧
        p'.contents = p.contents.drop kFrameSize := by
  obtain ⟨r, w, h⟩ := h
  rw [h.length_contents]
  rcases Nat.lt_or_ge (w - r) kFrameSize with hlt | hge
  · exact Or.inl ⟨hlt, by rw [tryParse, if_pos (h.size_eq ▸ hlt)]⟩
  · refine Or.inr ?_
    have hspan := h.readableSpan_eq hge
    have hlen : (p.contents.take kFrameSize).length = kFrameSize :=
      List.length_take_of_le (h.length_contents ▸ hge)
    have hhead : kHeaderSize ≤ ((p.contents.take kFrameSize).take kHeaderSize).length := by
      rw [List.length_take, hlen]
      decide
    rw [tryParse, if_neg (Nat.not_lt.mpr (h.size_eq ▸ hge)), hspan]
    generalize hb : p.contents.take kFrameSize = bs at hlen hhead
    dsimp only
    rw [decodeHeader_eq hhead, readHeader_take]
    dsimp only
    by_cases hm : (readHeader bs).magic = kMagic
    case neg =>
      have hbad : readRequest bs = none := readRequest_eq_none_iff.mpr fun hf => hm hf.magic
      refine Or.inl ⟨hge, hbad, ?_⟩
      rw [if_pos hm, if_pos (by decide)]
    by_cases hv : (readHeader bs).version = kVersion
    case neg =>
      have hbad : readRequest bs = none := readRequest_eq_none_iff.mpr fun hf => hv hf.version
      refine Or.inl ⟨hge, hbad, ?_⟩
      rw [if_neg (not_not.mpr hm), if_pos hv, if_pos (by decide)]
    rw [if_neg (not_not.mpr hm), if_neg (not_not.mpr hv), if_neg (not_not.mpr rfl),
      decodePayload_eq hlen]
    by_cases hval : validateHeader (readHeader bs) = .ok
    case neg =>
      have hbad : readRequest bs = none := readRequest_eq_none_iff.mpr fun hf =>
        hval (validateHeader_ok_iff.mpr ⟨hf.messageType, hf.payloadLength⟩)
      exact Or.inl ⟨hge, hbad, by rw [if_pos hval]⟩
    obtain ⟨htype, hpay⟩ := validateHeader_ok_iff.mp hval
    obtain ⟨payload, hp⟩ := Option.isSome_iff_exists.mp (readPayload_isSome_iff.mpr htype)
    have hreq : readRequest bs = some ⟨readHeader bs, payload⟩ := by
      rw [readRequest, if_pos ⟨hm, hv, htype, hpay⟩, hp]
      rfl
    rw [if_neg (not_not.mpr hval), hp]
    exact Or.inr ⟨_, _, hge, hreq, rfl, ⟨_, _, h.read hge⟩, h.contents_read hge⟩

theorem append (h : p.WellFormed) (bytes : List UInt8) : (p.append bytes).2.WellFormed := by
  rcases h.append_spec bytes with ⟨-, -, hwf, -⟩ | ⟨-, heq⟩
  · exact hwf
  · exact heq ▸ h

theorem tryParse (h : p.WellFormed) (out : DecodedMessage) : (p.tryParse out).2.2.WellFormed := by
  rcases h.tryParse_spec out with ⟨-, heq⟩ | ⟨-, -, heq⟩ | ⟨r, p', -, -, heq, hwf, -⟩
  · exact heq ▸ h
  · exact heq ▸ h
  · exact heq ▸ hwf

end WellFormed

end FrameParser

/-! ## A parser whose positions are always linked

What a connection holds: the ring together with the fact that its positions
come from counts. -/

/-- A parser in a state its calls can produce. -/
@[ext] structure Parser (C : ParserCapacity) where
  ring : FrameParser C
  wellFormed : ring.WellFormed

namespace Parser

variable {C : ParserCapacity}

def fresh : Parser C := ⟨FrameParser.fresh, FrameParser.wellFormed_fresh⟩

/-- The buffered bytes, in order. -/
def contents (p : Parser C) : List UInt8 := p.ring.contents

/-- The chunk fits into the free slots. -/
def Fits (p : Parser C) (bytes : List UInt8) : Prop :=
  bytes.length ≤ C.value - p.contents.length

def append (p : Parser C) (bytes : List UInt8) : Bool × Parser C :=
  ((p.ring.append bytes).1, ⟨(p.ring.append bytes).2, p.wellFormed.append bytes⟩)

def tryParse (p : Parser C) (out : DecodedMessage) :
    FrameParser.Status × DecodedMessage × Parser C :=
  ((p.ring.tryParse out).1, (p.ring.tryParse out).2.1,
    ⟨(p.ring.tryParse out).2.2, p.wellFormed.tryParse out⟩)

@[simp] theorem contents_fresh : (fresh : Parser C).contents = [] :=
  FrameParser.contents_fresh

theorem append_of_fits {p : Parser C} {bytes : List UInt8} (h : p.Fits bytes) :
    (p.append bytes).1 = true ∧ (p.append bytes).2.contents = p.contents ++ bytes := by
  rcases p.wellFormed.append_spec bytes with ⟨-, hok, -, hc⟩ | ⟨hlt, -⟩
  · exact ⟨hok, hc⟩
  · exact absurd h (Nat.not_le.mpr hlt)

theorem append_of_not_fits {p : Parser C} {bytes : List UInt8} (h : ¬ p.Fits bytes) :
    p.append bytes = (false, p) := by
  rcases p.wellFormed.append_spec bytes with ⟨hle, -⟩ | ⟨-, heq⟩
  · exact absurd hle h
  · have hfst : (p.ring.append bytes).1 = false := congrArg Prod.fst heq
    have hsnd : (p.ring.append bytes).2 = p.ring := congrArg Prod.snd heq
    exact Prod.ext hfst (Parser.ext hsnd)

theorem tryParse_cases (p : Parser C) (out : DecodedMessage) :
    (p.contents.length < kFrameSize ∧ p.tryParse out = (.needMoreData, out, p)) ∨
      (kFrameSize ≤ p.contents.length ∧ readRequest (p.contents.take kFrameSize) = none ∧
        p.tryParse out = (.protocolError, out, p)) ∨
      ∃ r p', kFrameSize ≤ p.contents.length ∧
        readRequest (p.contents.take kFrameSize) = some r ∧
        p.tryParse out = (.messageReady, out.overlay r, p') ∧
        p'.contents = p.contents.drop kFrameSize := by
  rcases p.wellFormed.tryParse_spec out with ⟨hlt, heq⟩ | ⟨hge, hr, heq⟩ |
    ⟨r, p', hge, hr, heq, hwf, hc⟩
  · refine Or.inl ⟨hlt, ?_⟩
    simp only [tryParse, heq]
  · refine Or.inr (Or.inl ⟨hge, hr, ?_⟩)
    simp only [tryParse, heq]
  · refine Or.inr (Or.inr ⟨r, ⟨p', hwf⟩, hge, hr, ?_, hc⟩)
    simp only [tryParse, heq]

theorem tryParse_of_read {p : Parser C} (out : DecodedMessage) {r : Request}
    (long : kFrameSize ≤ p.contents.length)
    (read : readRequest (p.contents.take kFrameSize) = some r) :
    (p.tryParse out).1 = .messageReady ∧ (p.tryParse out).2.1 = out.overlay r := by
  rcases p.tryParse_cases out with ⟨short, -⟩ | ⟨-, bad, -⟩ | ⟨r', p', -, read', heq, -⟩
  · exact absurd long (Nat.not_le.mpr short)
  · cases bad.symm.trans read
  · obtain rfl := Option.some.inj (read.symm.trans read')
    rw [heq]
    exact ⟨rfl, rfl⟩

theorem tryParse_ready {p : Parser C} {out : DecodedMessage}
    (h : (p.tryParse out).1 = .messageReady) :
    ∃ r, kFrameSize ≤ p.contents.length ∧ readRequest (p.contents.take kFrameSize) = some r ∧
      (p.tryParse out).2.1 = out.overlay r := by
  rcases p.tryParse_cases out with ⟨-, heq⟩ | ⟨-, -, heq⟩ | ⟨r, p', long, read, heq, -⟩
  · rw [heq] at h
    cases h
  · rw [heq] at h
    cases h
  · refine ⟨r, long, read, ?_⟩
    rw [heq]

end Parser

end TradingGateway.OrderEntry
