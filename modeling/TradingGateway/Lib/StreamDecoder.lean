/-
# `Lib.StreamDecoder` — decoding a stream of fixed-size frames

The reference against which an incremental decoder is measured.  A stream is
cut into frames of `n` elements, and the frames are decoded one after the other
up to the first one that `f` refuses:

    decodeStream n f s

An incremental decoder is fed the stream in pieces and takes frames off the
front of what it has.  `Decoded n f s out rest` says where such a decoder
stands: of the stream `s` it has decoded `out`, and `rest` is not looked at
yet.  Two moves keep the relation (`Decoded.feed`, `Decoded.take`); what is
decoded is always a prefix of the reference (`Decoded.prefix_decodeStream`),
and is all of it when no further frame can be taken
(`Decoded.eq_decodeStream`).  Where the pieces were cut never enters.
-/
import TradingGateway.Lib.Bytes

namespace Lib.StreamDecoder

open Lib.Bytes

variable {β ρ : Type*} {n : Nat} {f : List β → Option ρ}

/-- Decode frame by frame, up to the first frame that is refused. -/
def decodeAll (f : List β → Option ρ) : List (List β) → List ρ
  | [] => []
  | b :: bs =>
      match f b with
      | none => []
      | some r => r :: decodeAll f bs

/-- The reference: the complete frames of the stream, decoded. -/
def decodeStream (n : Nat) (f : List β → Option ρ) (s : List β) : List ρ :=
  decodeAll f (blocks n s)

theorem decodeAll_append {frames : List (List β)} {out : List ρ} (bs : List (List β))
    (h : frames.map f = out.map some) : decodeAll f (frames ++ bs) = out ++ decodeAll f bs := by
  induction frames generalizing out with
  | nil =>
      obtain rfl : out = [] := List.map_eq_nil_iff.mp h.symm
      rfl
  | cons b frames ih =>
      rcases out with _ | ⟨r, out⟩
      · cases h
      · obtain ⟨hr, hout⟩ := List.cons_eq_cons.mp h
        rw [List.cons_append, decodeAll, hr, ih hout]
        rfl

theorem decodeStream_of_short {s : List β} (h : s.length < n) : decodeStream n f s = [] := by
  rw [decodeStream, blocks_of_short h]
  rfl

theorem decodeStream_of_refused {s : List β} (hn : 0 < n) (h : n ≤ s.length)
    (hf : f (s.take n) = none) : decodeStream n f s = [] := by
  rw [decodeStream, blocks_cons hn h, decodeAll, hf]

/-- `out` was decoded off the front of the stream `s`, and `rest` is left. -/
def Decoded (n : Nat) (f : List β → Option ρ) (s : List β) (out : List ρ) (rest : List β) : Prop :=
  ∃ frames : List (List β),
    s = frames.flatten ++ rest ∧ (∀ b ∈ frames, b.length = n) ∧ frames.map f = out.map some

namespace Decoded

variable {s rest : List β} {out : List ρ}

theorem start : Decoded n f ([] : List β) [] [] :=
  ⟨[], rfl, fun _ h => absurd h List.not_mem_nil, rfl⟩

theorem feed (h : Decoded n f s out rest) (chunk : List β) :
    Decoded n f (s ++ chunk) out (rest ++ chunk) := by
  obtain ⟨frames, hs, hlen, hmap⟩ := h
  exact ⟨frames, by rw [hs, List.append_assoc], hlen, hmap⟩

theorem take {r : ρ} (h : Decoded n f s out rest) (hn : n ≤ rest.length)
    (hr : f (rest.take n) = some r) : Decoded n f s (out ++ [r]) (rest.drop n) := by
  obtain ⟨frames, hs, hlen, hmap⟩ := h
  refine ⟨frames ++ [rest.take n], ?_, ?_, ?_⟩
  · rw [hs, List.flatten_append, List.append_assoc, List.flatten_singleton, List.take_append_drop]
  · intro b hb
    rcases List.mem_append.mp hb with hb | hb
    · exact hlen b hb
    · rw [List.mem_singleton.mp hb]
      exact List.length_take_of_le hn
  · rw [List.map_append, hmap, List.map_append, List.map_singleton, hr]
    rfl

/-- The reference splits where the decoder stands. -/
theorem decodeStream_eq (h : Decoded n f s out rest) (hn : 0 < n) :
    decodeStream n f s = out ++ decodeStream n f rest := by
  obtain ⟨frames, hs, hlen, hmap⟩ := h
  rw [decodeStream, hs, blocks_flatten_append hn hlen, decodeAll_append _ hmap]
  rfl

theorem prefix_decodeStream (h : Decoded n f s out rest) (hn : 0 < n) :
    out <+: decodeStream n f s :=
  ⟨decodeStream n f rest, (h.decodeStream_eq hn).symm⟩

/-- No frame can be taken: too little is left, or what comes next is refused. -/
theorem eq_decodeStream (h : Decoded n f s out rest) (hn : 0 < n)
    (hstop : rest.length < n ∨ f (rest.take n) = none) : out = decodeStream n f s := by
  have hrest : decodeStream n f rest = [] := by
    rcases Nat.lt_or_ge rest.length n with hlt | hge
    · exact decodeStream_of_short hlt
    · exact decodeStream_of_refused hn hge (hstop.resolve_left (Nat.not_lt.mpr hge))
  rw [h.decodeStream_eq hn, hrest, List.append_nil]

theorem length_eq (h : Decoded n f s out rest) : s.length = n * out.length + rest.length := by
  obtain ⟨frames, hs, hlen, hmap⟩ := h
  have hcount : frames.length = out.length := by simpa using congrArg List.length hmap
  have hsum : frames.flatten.length = n * frames.length := by
    clear hs hmap hcount
    induction frames with
    | nil => rfl
    | cons b frames ih =>
        rw [List.flatten_cons, List.length_append, hlen b List.mem_cons_self,
          ih fun c hc => hlen c (List.mem_cons_of_mem _ hc), List.length_cons, Nat.mul_succ,
          Nat.add_comm]
  rw [hs, List.length_append, hsum, hcount]

theorem rest_eq (h : Decoded n f s out rest) : rest = s.drop (n * out.length) := by
  have hlen := h.length_eq
  obtain ⟨frames, hs, -, -⟩ := h
  have hfront : n * out.length = frames.flatten.length := by
    rw [hs, List.length_append] at hlen
    exact Nat.add_right_cancel hlen.symm
  rw [hs, hfront, List.drop_left]

/-- Of a stream that decodes as a whole, the next complete frame decodes. -/
theorem progress {t : List β} {all : List ρ} (h : Decoded n f s out rest) (hn : 0 < n)
    (hall : Decoded n f (s ++ t) all []) (hrest : n ≤ rest.length) :
    ∃ r, f (rest.take n) = some r := by
  cases hf : f (rest.take n) with
  | some r => exact ⟨r, rfl⟩
  | none =>
      have hfeed := h.feed t
      have htake : (rest ++ t).take n = rest.take n := List.take_append_of_le_length hrest
      have hout : out = all :=
        (hfeed.eq_decodeStream hn (Or.inr (htake ▸ hf))).trans
          (hall.eq_decodeStream hn (Or.inl hn)).symm
      have h1 := hfeed.length_eq
      have h2 := hall.length_eq
      rw [hout] at h1
      simp only [List.length_append, List.length_nil] at h1 h2
      omega

/-- Of a stream that decodes as a whole nothing is left but what no frame fits in. -/
theorem complete {all : List ρ} (h : Decoded n f s out rest) (hn : 0 < n)
    (hall : Decoded n f s all []) (hrest : rest.length < n) : out = all ∧ rest = [] := by
  have hout : out = all :=
    (h.eq_decodeStream hn (Or.inl hrest)).trans (hall.eq_decodeStream hn (Or.inl hn)).symm
  refine ⟨hout, List.length_eq_zero_iff.mp ?_⟩
  have h1 := h.length_eq
  have h2 := hall.length_eq
  rw [hout] at h1
  rw [List.length_nil] at h2
  omega

end Decoded

end Lib.StreamDecoder
