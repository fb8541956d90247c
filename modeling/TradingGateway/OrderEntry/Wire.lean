/-
# `OrderEntry.Wire` — what the codec writes and reads

The frame as a byte string, without a buffer: `headerBytes h` and the payload
words, all little-endian, tile the 64 bytes.  Every encoder writes exactly this
string over the front of its buffer (`encodeMessage_eq`), and the loads of the
decoders read the fields back from where they stand in it (`loadU64Le_eq` and
its siblings, `decodeHeader_eq`).
-/
import TradingGateway.Lib.Bytes
import TradingGateway.OrderEntry.Codec

namespace TradingGateway.OrderEntry

open Lib.Bytes

/-! ## Stores -/

theorem byte_u16 (v : UInt16) (k : Nat) (hk : k < 16) :
    ((v >>> UInt16.ofNat k) &&& 0xff).toUInt8 = UInt8.ofNat (v.toNat / 2 ^ k) := by
  apply UInt8.toNat.inj
  have h : (UInt16.ofNat k).toNat = k := UInt16.toNat_ofNat_of_lt' (Nat.lt_trans hk (by decide))
  rw [UInt16.toNat_toUInt8, UInt16.toNat_and, UInt16.toNat_shiftRight, h, Nat.mod_eq_of_lt hk,
    Nat.shiftRight_eq_div_pow, UInt8.toNat_ofNat']
  exact (congrArg (· % 2 ^ 8) (Nat.and_two_pow_sub_one_eq_mod _ 8)).trans (Nat.mod_mod _ _)

theorem byte_u32 (v : UInt32) (k : Nat) (hk : k < 32) :
    ((v >>> UInt32.ofNat k) &&& 0xff).toUInt8 = UInt8.ofNat (v.toNat / 2 ^ k) := by
  apply UInt8.toNat.inj
  have h : (UInt32.ofNat k).toNat = k := UInt32.toNat_ofNat_of_lt' (Nat.lt_trans hk (by decide))
  rw [UInt32.toNat_toUInt8, UInt32.toNat_and, UInt32.toNat_shiftRight, h, Nat.mod_eq_of_lt hk,
    Nat.shiftRight_eq_div_pow, UInt8.toNat_ofNat']
  exact (congrArg (· % 2 ^ 8) (Nat.and_two_pow_sub_one_eq_mod _ 8)).trans (Nat.mod_mod _ _)

theorem byte_u64 (v : UInt64) (k : Nat) (hk : k < 64) :
    ((v >>> UInt64.ofNat k) &&& 0xff).toUInt8 = UInt8.ofNat (v.toNat / 2 ^ k) := by
  apply UInt8.toNat.inj
  have h : (UInt64.ofNat k).toNat = k := UInt64.toNat_ofNat_of_lt' (Nat.lt_trans hk (by decide))
  rw [UInt64.toNat_toUInt8, UInt64.toNat_and, UInt64.toNat_shiftRight, h, Nat.mod_eq_of_lt hk,
    Nat.shiftRight_eq_div_pow, UInt8.toNat_ofNat']
  exact (congrArg (· % 2 ^ 8) (Nat.and_two_pow_sub_one_eq_mod _ 8)).trans (Nat.mod_mod _ _)

theorem storeU16Le_eq {out : List UInt8} {off : Nat} (v : UInt16) (h : off + 2 ≤ out.length) :
    storeU16Le out off v = overwrite out off (toLE 2 v.toNat) := by
  have h0 : (v &&& 0xff).toUInt8 = UInt8.ofNat v.toNat := by
    simpa using byte_u16 v 0 (by decide)
  have h1 : ((v >>> 8) &&& 0xff).toUInt8 = UInt8.ofNat (v.toNat / 256) := byte_u16 v 8 (by decide)
  rw [← setAll_eq_overwrite _ (by simpa using h)]
  simp only [toLE, ← h0, ← h1]
  rfl

theorem storeU32Le_eq {out : List UInt8} {off : Nat} (v : UInt32) (h : off + 4 ≤ out.length) :
    storeU32Le out off v = overwrite out off (toLE 4 v.toNat) := by
  have h0 : (v &&& 0xff).toUInt8 = UInt8.ofNat v.toNat := by
    simpa using byte_u32 v 0 (by decide)
  have h1 := byte_u32 v 8 (by decide)
  have h2 := byte_u32 v 16 (by decide)
  have h3 := byte_u32 v 24 (by decide)
  rw [← setAll_eq_overwrite _ (by simpa using h)]
  simp only [toLE, Nat.div_div_eq_div_mul, Nat.reduceMul]
  simp only [Nat.reducePow] at h1 h2 h3
  rw [← h0, ← h1, ← h2, ← h3]
  rfl

theorem storeU64Le_eq {out : List UInt8} {off : Nat} (v : UInt64) (h : off + 8 ≤ out.length) :
    storeU64Le out off v = overwrite out off (toLE 8 v.toNat) := by
  have h0 : (v &&& 0xff).toUInt8 = UInt8.ofNat v.toNat := by
    simpa using byte_u64 v 0 (by decide)
  have h1 := byte_u64 v 8 (by decide)
  have h2 := byte_u64 v 16 (by decide)
  have h3 := byte_u64 v 24 (by decide)
  have h4 := byte_u64 v 32 (by decide)
  have h5 := byte_u64 v 40 (by decide)
  have h6 := byte_u64 v 48 (by decide)
  have h7 := byte_u64 v 56 (by decide)
  rw [← setAll_eq_overwrite _ (by simpa using h)]
  simp only [toLE, Nat.div_div_eq_div_mul, Nat.reduceMul]
  simp only [Nat.reducePow] at h1 h2 h3 h4 h5 h6 h7
  rw [← h0, ← h1, ← h2, ← h3, ← h4, ← h5, ← h6, ← h7]
  rfl

/-! ## Loads -/

/-- The next byte of a loaded integer lies above the ones before it. -/
theorem or_shift_u16 {a : UInt16} (b : UInt8) (k : Nat) (ha : a.toNat < 2 ^ k) (hk : k + 8 ≤ 16) :
    (a ||| b.toUInt16 <<< UInt16.ofNat k).toNat = a.toNat + 2 ^ k * b.toNat := by
  have h : (UInt16.ofNat k).toNat = k :=
    UInt16.toNat_ofNat_of_lt' (Nat.lt_of_lt_of_le (by omega : k < 16) (by decide))
  have hlt : b.toNat <<< k < 2 ^ 16 := by
    rw [Nat.shiftLeft_eq]
    exact Nat.lt_of_lt_of_le ((Nat.mul_lt_mul_right (Nat.two_pow_pos k)).mpr b.toNat_lt)
      (by rw [← Nat.pow_add]; exact Nat.pow_le_pow_right Nat.two_pos (by omega))
  rw [UInt16.toNat_or, UInt16.toNat_shiftLeft, h, Nat.mod_eq_of_lt (by omega : k < 16),
    UInt8.toNat_toUInt16, Nat.mod_eq_of_lt hlt, Nat.or_comm, ← Nat.shiftLeft_add_eq_or_of_lt ha,
    Nat.shiftLeft_eq, Nat.add_comm, Nat.mul_comm]

theorem or_shift_u32 {a : UInt32} (b : UInt8) (k : Nat) (ha : a.toNat < 2 ^ k) (hk : k + 8 ≤ 32) :
    (a ||| b.toUInt32 <<< UInt32.ofNat k).toNat = a.toNat + 2 ^ k * b.toNat := by
  have h : (UInt32.ofNat k).toNat = k :=
    UInt32.toNat_ofNat_of_lt' (Nat.lt_of_lt_of_le (by omega : k < 32) (by decide))
  have hlt : b.toNat <<< k < 2 ^ 32 := by
    rw [Nat.shiftLeft_eq]
    exact Nat.lt_of_lt_of_le ((Nat.mul_lt_mul_right (Nat.two_pow_pos k)).mpr b.toNat_lt)
      (by rw [← Nat.pow_add]; exact Nat.pow_le_pow_right Nat.two_pos (by omega))
  rw [UInt32.toNat_or, UInt32.toNat_shiftLeft, h, Nat.mod_eq_of_lt (by omega : k < 32),
    UInt8.toNat_toUInt32, Nat.mod_eq_of_lt hlt, Nat.or_comm, ← Nat.shiftLeft_add_eq_or_of_lt ha,
    Nat.shiftLeft_eq, Nat.add_comm, Nat.mul_comm]

theorem or_shift_u64 {a : UInt64} (b : UInt8) (k : Nat) (ha : a.toNat < 2 ^ k) (hk : k + 8 ≤ 64) :
    (a ||| b.toUInt64 <<< UInt64.ofNat k).toNat = a.toNat + 2 ^ k * b.toNat := by
  have h : (UInt64.ofNat k).toNat = k :=
    UInt64.toNat_ofNat_of_lt' (Nat.lt_of_lt_of_le (by omega : k < 64) (by decide))
  have hlt : b.toNat <<< k < 2 ^ 64 := by
    rw [Nat.shiftLeft_eq]
    exact Nat.lt_of_lt_of_le ((Nat.mul_lt_mul_right (Nat.two_pow_pos k)).mpr b.toNat_lt)
      (by rw [← Nat.pow_add]; exact Nat.pow_le_pow_right Nat.two_pos (by omega))
  rw [UInt64.toNat_or, UInt64.toNat_shiftLeft, h, Nat.mod_eq_of_lt (by omega : k < 64),
    UInt8.toNat_toUInt64, Nat.mod_eq_of_lt hlt, Nat.or_comm, ← Nat.shiftLeft_add_eq_or_of_lt ha,
    Nat.shiftLeft_eq, Nat.add_comm, Nat.mul_comm]

theorem slice_eq_byteAt {inp : List UInt8} {off n : Nat} (h : off + n ≤ inp.length) :
    slice inp off n = (List.range n).map fun i => byteAt inp (off + i) := by
  refine List.ext_getElem? fun i => ?_
  rcases Nat.lt_or_ge i n with hi | hi
  · have hin : off + i < inp.length := by omega
    simp [slice, byteAt, List.getElem?_take_of_lt hi, hi, List.getElem?_eq_getElem hin]
  · rw [List.getElem?_eq_none (by rw [length_slice h]; exact hi),
      List.getElem?_eq_none (by simpa using hi)]

/-- A load in progress: the bytes `bs` are in, `b` comes next. -/
theorem or_byte_u16 {a : UInt16} {bs : List UInt8} (b : UInt8) (ha : a.toNat = ofLE bs)
    (hk : 8 * bs.length + 8 ≤ 16) :
    (a ||| b.toUInt16 <<< UInt16.ofNat (8 * bs.length)).toNat = ofLE (bs ++ [b]) := by
  have hlt : a.toNat < 2 ^ (8 * bs.length) := by
    rw [ha, Nat.pow_mul]
    exact ofLE_lt bs
  rw [or_shift_u16 b _ hlt hk, ha, ofLE_snoc]

theorem or_byte_u32 {a : UInt32} {bs : List UInt8} (b : UInt8) (ha : a.toNat = ofLE bs)
    (hk : 8 * bs.length + 8 ≤ 32) :
    (a ||| b.toUInt32 <<< UInt32.ofNat (8 * bs.length)).toNat = ofLE (bs ++ [b]) := by
  have hlt : a.toNat < 2 ^ (8 * bs.length) := by
    rw [ha, Nat.pow_mul]
    exact ofLE_lt bs
  rw [or_shift_u32 b _ hlt hk, ha, ofLE_snoc]

theorem or_byte_u64 {a : UInt64} {bs : List UInt8} (b : UInt8) (ha : a.toNat = ofLE bs)
    (hk : 8 * bs.length + 8 ≤ 64) :
    (a ||| b.toUInt64 <<< UInt64.ofNat (8 * bs.length)).toNat = ofLE (bs ++ [b]) := by
  have hlt : a.toNat < 2 ^ (8 * bs.length) := by
    rw [ha, Nat.pow_mul]
    exact ofLE_lt bs
  rw [or_shift_u64 b _ hlt hk, ha, ofLE_snoc]

/-- The little-endian integer at an offset. -/
def u16At (bs : List UInt8) (off : Nat) : UInt16 := UInt16.ofNat (ofLE (slice bs off 2))

def u32At (bs : List UInt8) (off : Nat) : UInt32 := UInt32.ofNat (ofLE (slice bs off 4))

def u64At (bs : List UInt8) (off : Nat) : UInt64 := UInt64.ofNat (ofLE (slice bs off 8))

theorem loadU16Le_eq {inp : List UInt8} {off : Nat} (h : off + 2 ≤ inp.length) :
    loadU16Le inp off = u16At inp off := by
  have e0 : (byteAt inp (off + 0)).toUInt16.toNat = ofLE [byteAt inp (off + 0)] := by
    simp [ofLE]
  have e1 := or_byte_u16 (byteAt inp (off + 1)) e0 (by simp)
  rw [u16At, slice_eq_byteAt h]
  apply UInt16.toNat.inj
  rw [UInt16.toNat_ofNat_of_lt' (Nat.lt_of_lt_of_le (ofLE_lt _) (by simp))]
  exact e1

theorem loadU32Le_eq {inp : List UInt8} {off : Nat} (h : off + 4 ≤ inp.length) :
    loadU32Le inp off = u32At inp off := by
  have e0 : (byteAt inp (off + 0)).toUInt32.toNat = ofLE [byteAt inp (off + 0)] := by
    simp [ofLE]
  have e1 := or_byte_u32 (byteAt inp (off + 1)) e0 (by simp)
  have e2 := or_byte_u32 (byteAt inp (off + 2)) e1 (by simp)
  have e3 := or_byte_u32 (byteAt inp (off + 3)) e2 (by simp)
  rw [u32At, slice_eq_byteAt h]
  apply UInt32.toNat.inj
  rw [UInt32.toNat_ofNat_of_lt' (Nat.lt_of_lt_of_le (ofLE_lt _) (by simp))]
  exact e3

theorem loadU64Le_eq {inp : List UInt8} {off : Nat} (h : off + 8 ≤ inp.length) :
    loadU64Le inp off = u64At inp off := by
  have e0 : (byteAt inp (off + 0)).toUInt64.toNat = ofLE [byteAt inp (off + 0)] := by
    simp [ofLE]
  have e1 := or_byte_u64 (byteAt inp (off + 1)) e0 (by simp)
  have e2 := or_byte_u64 (byteAt inp (off + 2)) e1 (by simp)
  have e3 := or_byte_u64 (byteAt inp (off + 3)) e2 (by simp)
  have e4 := or_byte_u64 (byteAt inp (off + 4)) e3 (by simp)
  have e5 := or_byte_u64 (byteAt inp (off + 5)) e4 (by simp)
  have e6 := or_byte_u64 (byteAt inp (off + 6)) e5 (by simp)
  have e7 := or_byte_u64 (byteAt inp (off + 7)) e6 (by simp)
  rw [u64At, slice_eq_byteAt h]
  apply UInt64.toNat.inj
  rw [UInt64.toNat_ofNat_of_lt' (Nat.lt_of_lt_of_le (ofLE_lt _) (by simp))]
  exact e7

/-! ## The frame

The fields lie one behind the other, in the order in which they are stored. -/

/-- The 32 bytes of a header. -/
def headerBytes (h : MessageHeader) : List UInt8 :=
  toLE 4 h.magic.toNat ++ toLE 2 h.version.toNat ++ toLE 2 h.messageType.value.toNat
    ++ toLE 2 h.payloadLength.toNat ++ toLE 2 h.flags.toNat ++ toLE 8 h.sequenceNumber.toNat
    ++ toLE 8 h.sessionId.toNat ++ toLE 4 h.reserved.toNat

/-- Payload words. -/
def wordBytes : List UInt64 → List UInt8
  | [] => []
  | w :: ws => toLE 8 w.toNat ++ wordBytes ws

/-- The header an encoder writes for the one it is given. -/
def stamp (type : MessageType) (header : MessageHeader) : MessageHeader :=
  { header with messageType := type, payloadLength := UInt16.ofNat kPayloadSize }

/-- What an encoder writes: the stamped header and the payload words. -/
def messageBytes (type : MessageType) (words : List UInt64) (header : MessageHeader) :
    List UInt8 :=
  headerBytes (stamp type header) ++ wordBytes words

@[simp] theorem length_headerBytes (h : MessageHeader) : (headerBytes h).length = kHeaderSize := by
  simp [headerBytes, kHeaderSize]

@[simp] theorem length_wordBytes (ws : List UInt64) : (wordBytes ws).length = 8 * ws.length := by
  induction ws with
  | nil => rfl
  | cons w ws ih =>
      rw [wordBytes, List.length_append, ih, length_toLE, List.length_cons, Nat.mul_succ,
        Nat.add_comm]

@[simp] theorem length_messageBytes (type : MessageType) (ws : List UInt64) (h : MessageHeader) :
    (messageBytes type ws h).length = kHeaderSize + 8 * ws.length := by
  simp [messageBytes]

/-! ### Encoding -/

section Extend

variable {out bs : List UInt8} {off : Nat}

theorem storeU16Le_extend (v : UInt16) (ho : off = bs.length) (h : bs.length + 2 ≤ out.length) :
    storeU16Le (overwrite out 0 bs) off v = overwrite out 0 (bs ++ toLE 2 v.toNat) := by
  subst ho
  have hlen : (overwrite out 0 bs).length = out.length := length_overwrite (by omega)
  have hext : overwrite (overwrite out 0 bs) (0 + bs.length) (toLE 2 v.toNat)
      = overwrite out 0 (bs ++ toLE 2 v.toNat) := overwrite_overwrite (by simpa using h)
  rw [storeU16Le_eq v (by rw [hlen]; exact h), ← hext, Nat.zero_add]

theorem storeU32Le_extend (v : UInt32) (ho : off = bs.length) (h : bs.length + 4 ≤ out.length) :
    storeU32Le (overwrite out 0 bs) off v = overwrite out 0 (bs ++ toLE 4 v.toNat) := by
  subst ho
  have hlen : (overwrite out 0 bs).length = out.length := length_overwrite (by omega)
  have hext : overwrite (overwrite out 0 bs) (0 + bs.length) (toLE 4 v.toNat)
      = overwrite out 0 (bs ++ toLE 4 v.toNat) := overwrite_overwrite (by simpa using h)
  rw [storeU32Le_eq v (by rw [hlen]; exact h), ← hext, Nat.zero_add]

theorem storeU64Le_extend (v : UInt64) (ho : off = bs.length) (h : bs.length + 8 ≤ out.length) :
    storeU64Le (overwrite out 0 bs) off v = overwrite out 0 (bs ++ toLE 8 v.toNat) := by
  subst ho
  have hlen : (overwrite out 0 bs).length = out.length := length_overwrite (by omega)
  have hext : overwrite (overwrite out 0 bs) (0 + bs.length) (toLE 8 v.toNat)
      = overwrite out 0 (bs ++ toLE 8 v.toNat) := overwrite_overwrite (by simpa using h)
  rw [storeU64Le_eq v (by rw [hlen]; exact h), ← hext, Nat.zero_add]

end Extend

theorem encodeHeader_eq {out : List UInt8} (h : MessageHeader) (hout : kHeaderSize ≤ out.length) :
    encodeHeader h out = overwrite out 0 (headerBytes h) := by
  have hroom : ∀ {n : Nat}, n ≤ kHeaderSize → n ≤ out.length := fun hn => Nat.le_trans hn hout
  have hfirst : storeU32Le out MessageHeader.offMagic h.magic
      = overwrite out 0 (toLE 4 h.magic.toNat) := storeU32Le_eq _ (hroom (by decide))
  rw [encodeHeader, hfirst, storeU16Le_extend _ (by rfl) (hroom (by simp [kHeaderSize])),
    storeU16Le_extend _ (by rfl) (hroom (by simp [kHeaderSize])), storeU16Le_extend _ (by rfl) (hroom (by simp [kHeaderSize])),
    storeU16Le_extend _ (by rfl) (hroom (by simp [kHeaderSize])), storeU64Le_extend _ (by rfl) (hroom (by simp [kHeaderSize])),
    storeU64Le_extend _ (by rfl) (hroom (by simp [kHeaderSize])), storeU32Le_extend _ (by rfl) (hroom (by simp [kHeaderSize]))]
  rfl

/-- Words at consecutive offsets. -/
def wordsAt (off : Nat) : List UInt64 → List (Nat × UInt64)
  | [] => []
  | w :: ws => (off, w) :: wordsAt (off + 8) ws

theorem foldl_storeU64Le {out : List UInt8} {ws : List UInt64} :
    ∀ {bs : List UInt8} {off : Nat}, kHeaderSize + off = bs.length →
      bs.length + 8 * ws.length ≤ out.length →
      (wordsAt off ws).foldl (fun out word => storeU64Le out (kHeaderSize + word.1) word.2)
          (overwrite out 0 bs)
        = overwrite out 0 (bs ++ wordBytes ws) := by
  induction ws with
  | nil =>
      intro bs off _ _
      rw [wordBytes, List.append_nil]
      rfl
  | cons w ws ih =>
      intro bs off ho h
      rw [List.length_cons, Nat.mul_succ] at h
      rw [wordsAt, List.foldl_cons, storeU64Le_extend w ho (by omega), wordBytes,
        ← List.append_assoc]
      refine ih ?_ ?_
      · rw [List.length_append, length_toLE, ← ho, Nat.add_assoc]
      · rw [List.length_append, length_toLE]
        omega

/-- **Every encoder writes `messageBytes` over the front of its buffer.** -/
theorem encodeMessage_eq {out : List UInt8} (type : MessageType) (ws : List UInt64)
    (header : MessageHeader) (hout : kHeaderSize + 8 * ws.length ≤ out.length) :
    encodeMessage type (wordsAt 0 ws) header out
      = (kFrameSize, overwrite out 0 (messageBytes type ws header)) := by
  have hhead := encodeHeader_eq (stamp type header) (Nat.le_trans (Nat.le_add_right _ _) hout)
  have hwords := @foldl_storeU64Le out ws (headerBytes (stamp type header)) 0 (by simp)
    (by simpa using hout)
  rw [← hhead] at hwords
  exact Prod.ext rfl hwords

/-- The buffer after encoding: the message, and behind it what was there. -/
theorem encodeMessage_snd {out : List UInt8} (type : MessageType) (ws : List UInt64)
    (header : MessageHeader) (hout : kHeaderSize + 8 * ws.length ≤ out.length) :
    (encodeMessage type (wordsAt 0 ws) header out).2
      = messageBytes type ws header ++ out.drop (kHeaderSize + 8 * ws.length) := by
  rw [encodeMessage_eq type ws header hout, overwrite_zero, length_messageBytes]

/-! ### Decoding -/

section Field

variable {pre post : List UInt8} {off : Nat}

theorem u16At_append (h : pre.length ≤ off) :
    u16At (pre ++ post) off = u16At post (off - pre.length) := by
  rw [u16At, slice_append_right h, u16At]

theorem u32At_append (h : pre.length ≤ off) :
    u32At (pre ++ post) off = u32At post (off - pre.length) := by
  rw [u32At, slice_append_right h, u32At]

theorem u64At_append (h : pre.length ≤ off) :
    u64At (pre ++ post) off = u64At post (off - pre.length) := by
  rw [u64At, slice_append_right h, u64At]

theorem slice_toLE (n v : Nat) : slice (toLE n v ++ post) 0 n = toLE n v := by
  have h : slice (toLE n v ++ post) 0 n = slice (toLE n v) 0 n := slice_append_left (by simp)
  have h' := slice_zero_length (toLE n v)
  rw [length_toLE] at h'
  rw [h, h']

theorem u16At_toLE (v : UInt16) : u16At (toLE 2 v.toNat ++ post) 0 = v := by
  have hlt : v.toNat < 256 ^ 2 := Nat.lt_of_lt_of_le v.toNat_lt (Nat.le_of_eq rfl)
  rw [u16At, slice_toLE, ofLE_toLE, Nat.mod_eq_of_lt hlt, UInt16.ofNat_toNat]

theorem u32At_toLE (v : UInt32) : u32At (toLE 4 v.toNat ++ post) 0 = v := by
  have hlt : v.toNat < 256 ^ 4 := Nat.lt_of_lt_of_le v.toNat_lt (Nat.le_of_eq rfl)
  rw [u32At, slice_toLE, ofLE_toLE, Nat.mod_eq_of_lt hlt, UInt32.ofNat_toNat]

theorem u64At_toLE (v : UInt64) : u64At (toLE 8 v.toNat ++ post) 0 = v := by
  have hlt : v.toNat < 256 ^ 8 := Nat.lt_of_lt_of_le v.toNat_lt (Nat.le_of_eq rfl)
  rw [u64At, slice_toLE, ofLE_toLE, Nat.mod_eq_of_lt hlt, UInt64.ofNat_toNat]

end Field

/-- The header at the front of a byte string. -/
def readHeader (bs : List UInt8) : MessageHeader where
  magic := u32At bs 0
  version := u16At bs 4
  messageType := ⟨u16At bs 6⟩
  payloadLength := u16At bs 8
  flags := u16At bs 10
  sequenceNumber := u64At bs 12
  sessionId := u64At bs 20
  reserved := u32At bs 28

theorem readHeader_take {bs : List UInt8} : readHeader (bs.take kHeaderSize) = readHeader bs := by
  simp [readHeader, u16At, u32At, u64At, slice_take, kHeaderSize]

/-- The payload word at an index, behind the header. -/
def readWord (bs : List UInt8) (i : Nat) : UInt64 := u64At bs (32 + 8 * i)

theorem readHeader_headerBytes (h : MessageHeader) (post : List UInt8) :
    readHeader (headerBytes h ++ post) = h := by
  simp [readHeader, headerBytes, u16At_append, u32At_append, u64At_append, u16At_toLE, u32At_toLE,
    u64At_toLE]

theorem wordBytes_append (as bs : List UInt64) :
    wordBytes (as ++ bs) = wordBytes as ++ wordBytes bs := by
  induction as with
  | nil => rfl
  | cons a as ih => rw [List.cons_append, wordBytes, ih, wordBytes, List.append_assoc]

theorem readWord_messageBytes (type : MessageType) (header : MessageHeader) (as bs : List UInt64)
    (w : UInt64) (post : List UInt8) :
    readWord (messageBytes type (as ++ w :: bs) header ++ post) as.length = w := by
  have hsplit : messageBytes type (as ++ w :: bs) header ++ post
      = (headerBytes (stamp type header) ++ wordBytes as)
          ++ (toLE 8 w.toNat ++ (wordBytes bs ++ post)) := by
    rw [messageBytes, wordBytes_append, wordBytes]
    simp only [List.append_assoc]
  have hlen : (headerBytes (stamp type header) ++ wordBytes as).length = 32 + 8 * as.length := by
    simp [kHeaderSize]
  rw [readWord, hsplit, u64At_append (Nat.le_of_eq hlen), hlen, Nat.sub_self, u64At_toLE]

theorem readHeader_messageBytes (type : MessageType) (ws : List UInt64) (h : MessageHeader)
    (post : List UInt8) : readHeader (messageBytes type ws h ++ post) = stamp type h := by
  rw [messageBytes, List.append_assoc, readHeader_headerBytes]

/-- An encoder that stores all four payload words leaves nothing of the buffer. -/
theorem encodeMessage_four {out : List UInt8} (type : MessageType) (w0 w1 w2 w3 : UInt64)
    (header : MessageHeader) (hout : out.length = kFrameSize) :
    (encodeMessage type [(0, w0), (8, w1), (16, w2), (24, w3)] header out).2
      = messageBytes type [w0, w1, w2, w3] header := by
  have hdrop : out.drop (kHeaderSize + 8 * [w0, w1, w2, w3].length) = [] :=
    List.drop_eq_nil_of_le (Nat.le_of_eq hout)
  have hbytes := encodeMessage_snd type [w0, w1, w2, w3] header (Nat.le_of_eq hout.symm)
  rw [hdrop, List.append_nil] at hbytes
  exact hbytes

theorem encodeMessage_full {out : List UInt8} (type : MessageType) (w0 w1 w2 w3 : UInt64)
    (header : MessageHeader) (hout : out.length = kFrameSize) :
    let bs := (encodeMessage type [(0, w0), (8, w1), (16, w2), (24, w3)] header out).2
    bs.length = kFrameSize ∧ readHeader bs = stamp type header ∧
      readWord bs 0 = w0 ∧ readWord bs 1 = w1 ∧ readWord bs 2 = w2 ∧ readWord bs 3 = w3 := by
  intro bs
  have hbs : bs = messageBytes type [w0, w1, w2, w3] header ++ [] :=
    (encodeMessage_four type w0 w1 w2 w3 header hout).trans (List.append_nil _).symm
  rw [hbs]
  refine ⟨?_, readHeader_messageBytes type _ header _, ?_, ?_, ?_, ?_⟩
  · rw [List.append_nil, length_messageBytes]
    rfl
  · exact readWord_messageBytes type header [] [w1, w2, w3] w0 _
  · exact readWord_messageBytes type header [w0] [w2, w3] w1 _
  · exact readWord_messageBytes type header [w0, w1] [w3] w2 _
  · exact readWord_messageBytes type header [w0, w1, w2] [] w3 _

/-! ### The decoders, by what they read -/

theorem decodeHeader_eq {inp : List UInt8} (h : kHeaderSize ≤ inp.length) (out : MessageHeader) :
    decodeHeader inp out =
      (if (readHeader inp).magic ≠ kMagic then .badMagic
        else if (readHeader inp).version ≠ kVersion then .badVersion
        else .ok, readHeader inp) := by
  have hroom : ∀ {n : Nat}, n ≤ kHeaderSize → n ≤ inp.length := fun hn => Nat.le_trans hn h
  have hread : ({ magic := loadU32Le inp MessageHeader.offMagic
                  version := loadU16Le inp MessageHeader.offVersion
                  messageType := ⟨loadU16Le inp MessageHeader.offMessageType⟩
                  payloadLength := loadU16Le inp MessageHeader.offPayloadLength
                  flags := loadU16Le inp MessageHeader.offFlags
                  sequenceNumber := loadU64Le inp MessageHeader.offSequenceNumber
                  sessionId := loadU64Le inp MessageHeader.offSessionId
                  reserved := loadU32Le inp MessageHeader.offReserved } : MessageHeader)
      = readHeader inp := by
    rw [loadU32Le_eq (hroom (by decide)), loadU32Le_eq (hroom (by decide)),
      loadU16Le_eq (hroom (by decide)), loadU16Le_eq (hroom (by decide)),
      loadU16Le_eq (hroom (by decide)), loadU16Le_eq (hroom (by decide)),
      loadU64Le_eq (hroom (by decide)), loadU64Le_eq (hroom (by decide))]
    rfl
  rw [decodeHeader, if_neg (Nat.not_lt.mpr h), hread]
  dsimp only
  split_ifs <;> rfl

theorem decodeHeader_ok_iff {inp : List UInt8} (h : kHeaderSize ≤ inp.length) (out : MessageHeader) :
    (decodeHeader inp out).1 = .ok ↔
      (readHeader inp).magic = kMagic ∧ (readHeader inp).version = kVersion := by
  rw [decodeHeader_eq h]
  dsimp only
  split
  next hm => exact iff_of_false nofun fun hok => hm hok.1
  next hm =>
    split
    next hv => exact iff_of_false nofun fun hok => hv hok.2
    next hv => exact iff_of_true rfl ⟨not_not.mp hm, not_not.mp hv⟩

/-- Every payload load is of one of the four words. -/
theorem loadU64Le_word {inp : List UInt8} (h : kFrameSize ≤ inp.length) {i : Nat} (hi : i < 4) :
    loadU64Le inp (kHeaderSize + 8 * i) = readWord inp i := by
  have h : 64 ≤ inp.length := h
  exact loadU64Le_eq (by simp only [kHeaderSize]; omega)

section Payloads

variable {inp : List UInt8}

theorem decodeNewOrder_eq (h : kFrameSize ≤ inp.length) (out : NewOrder) :
    decodeNewOrder inp out =
      (.ok, ⟨readWord inp 0, ⟨readWord inp 1⟩, readWord inp 2, readWord inp 3⟩) := by
  rw [← loadU64Le_word h (by decide), ← loadU64Le_word h (by decide),
    ← loadU64Le_word h (by decide), ← loadU64Le_word h (by decide)]
  exact if_neg (Nat.not_lt.mpr h)

theorem decodeCancelOrder_eq (h : kFrameSize ≤ inp.length) (out : CancelOrder) :
    decodeCancelOrder inp out = (.ok, { out with clientOrderId := readWord inp 0 }) := by
  rw [← loadU64Le_word h (by decide)]
  exact if_neg (Nat.not_lt.mpr h)

theorem decodeModifyOrder_eq (h : kFrameSize ≤ inp.length) (out : ModifyOrder) :
    decodeModifyOrder inp out =
      (.ok, { out with
        clientOrderId := readWord inp 0, newPrice := readWord inp 1,
        newQuantity := readWord inp 2 }) := by
  rw [← loadU64Le_word h (by decide), ← loadU64Le_word h (by decide),
    ← loadU64Le_word h (by decide)]
  exact if_neg (Nat.not_lt.mpr h)

/-- The five response decoders read all four words. -/
theorem decodeAccepted_eq (h : kFrameSize ≤ inp.length) (out : Accepted) :
    decodeAccepted inp out =
      (.ok, ⟨readWord inp 0, readWord inp 1, readWord inp 2, readWord inp 3⟩) := by
  rw [← loadU64Le_word h (by decide), ← loadU64Le_word h (by decide),
    ← loadU64Le_word h (by decide), ← loadU64Le_word h (by decide)]
  exact if_neg (Nat.not_lt.mpr h)

theorem decodeRejected_eq (h : kFrameSize ≤ inp.length) (out : Rejected) :
    decodeRejected inp out =
      (.ok, ⟨readWord inp 0, ⟨readWord inp 1⟩, readWord inp 2, readWord inp 3⟩) := by
  rw [← loadU64Le_word h (by decide), ← loadU64Le_word h (by decide),
    ← loadU64Le_word h (by decide), ← loadU64Le_word h (by decide)]
  exact if_neg (Nat.not_lt.mpr h)

theorem decodeCancelled_eq (h : kFrameSize ≤ inp.length) (out : Cancelled) :
    decodeCancelled inp out =
      (.ok, ⟨readWord inp 0, readWord inp 1, readWord inp 2, readWord inp 3⟩) := by
  rw [← loadU64Le_word h (by decide), ← loadU64Le_word h (by decide),
    ← loadU64Le_word h (by decide), ← loadU64Le_word h (by decide)]
  exact if_neg (Nat.not_lt.mpr h)

theorem decodeModified_eq (h : kFrameSize ≤ inp.length) (out : Modified) :
    decodeModified inp out =
      (.ok, ⟨readWord inp 0, readWord inp 1, readWord inp 2, readWord inp 3⟩) := by
  rw [← loadU64Le_word h (by decide), ← loadU64Le_word h (by decide),
    ← loadU64Le_word h (by decide), ← loadU64Le_word h (by decide)]
  exact if_neg (Nat.not_lt.mpr h)

theorem decodeTrade_eq (h : kFrameSize ≤ inp.length) (out : Trade) :
    decodeTrade inp out =
      (.ok, ⟨readWord inp 0, readWord inp 1, readWord inp 2, readWord inp 3⟩) := by
  rw [← loadU64Le_word h (by decide), ← loadU64Le_word h (by decide),
    ← loadU64Le_word h (by decide), ← loadU64Le_word h (by decide)]
  exact if_neg (Nat.not_lt.mpr h)

end Payloads

end TradingGateway.OrderEntry
