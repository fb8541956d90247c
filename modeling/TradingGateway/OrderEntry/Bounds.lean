/-
# `OrderEntry.Bounds` — the parser never leaves its buffer

Neither `append` nor `try_parse` checks an address.  What keeps them inside are three
facts about the positions, none of them about a single call:

| access | stays inside because |
| :-- | :-- |
| the first copy of `append` | the write position is masked |
| the second one | the chunk fits into the free slots, so it comes round less than a lap |
| the 64 bytes of `readable_span` | the read position is a multiple of 64, as the capacity is |

A chunk that ends at the physical end is one copy.  One byte more and it is two, the
second of a single byte; neither reaches a byte that was not parsed yet, although the
second lands before the read position (`CopiesInBounds.unread`).
-/
import TradingGateway.OrderEntry.Stream

namespace TradingGateway.OrderEntry

open Lib Lib.Cyclic

variable {C : ParserCapacity}

/-- A power of two below `2^64` is at most half of it. -/
theorem ParserCapacity.le_half (C : ParserCapacity) : C.value ≤ 2 ^ 63 := by
  obtain ⟨k, hk⟩ := C.singleBit
  have hlt : 2 ^ k < 2 ^ 64 := hk ▸ C.lt_size
  have hexp : k < 64 := (Nat.pow_lt_pow_iff_right (by decide)).mp hlt
  rw [hk]
  exact Nat.pow_le_pow_right (by decide) (Nat.le_of_lt_succ hexp)

namespace FrameParser

variable {p : FrameParser C} {r w : Nat}

/-- The cell holds the byte `i` places behind the read position. -/
def Unread (p : FrameParser C) (j : Nat) : Prop :=
  ∃ i < p.size.toNat, bufferIdx C (p.readPos + UInt64.ofNat i) = j

/-- What a chunk of this size may be copied with: no size computation of `append` wraps,
and its copies read the chunk and write free cells only. -/
structure CopiesInBounds (p : FrameParser C) (size : Nat) : Prop where
  noOverflow : bufferIdx C p.writePos + size < 2 ^ 64
  head_le : bufferIdx C p.writePos ≤ C.value
  tail_le : C.value < bufferIdx C p.writePos + size → C.value - bufferIdx C p.writePos ≤ size
  total : (p.appendCopies size).foldl (fun n m => n + m.count) 0 = size
  reads : ∀ m ∈ p.appendCopies size, m.src + m.count ≤ size
  writes : ∀ m ∈ p.appendCopies size, m.dst + m.count ≤ C.value
  unread : ∀ m ∈ p.appendCopies size, ∀ j, m.dst ≤ j → j < m.dst + m.count → ¬ p.Unread j

namespace Linked

theorem unread_iff (h : Linked p r w) {j : Nat} :
    p.Unread j ↔ ∃ i < w - r, (r + i) % C.value = j := by
  have hcell (i : Nat) : bufferIdx C (p.readPos + UInt64.ofNat i) = (r + i) % C.value := by
    refine C.bufferIdx_eq ?_
    rw [UInt64.toNat_add, h.readPos_eq, UInt64.toNat_ofNat', ← Nat.add_mod]
  rw [Unread, h.size_eq]
  simp only [hcell]

/-- **The copies of a chunk that fits.** -/
theorem copiesInBounds (h : Linked p r w) {size : Nat} (hk : size ≤ C.value - (w - r)) :
    p.CopiesInBounds size := by
  have hhalf := C.le_half
  have ha : w % C.value < C.value := Nat.mod_lt w C.pos
  have hsize : size ≤ C.value := hk.trans (Nat.sub_le _ _)
  have hidx := C.bufferIdx_eq h.writePos_eq
  have hover : bufferIdx C p.writePos + size < 2 ^ 64 := by omega
  have hhead : bufferIdx C p.writePos ≤ C.value := hidx ▸ Nat.le_of_lt ha
  have htail : C.value < bufferIdx C p.writePos + size →
      C.value - bufferIdx C p.writePos ≤ size := by omega
  have hunread : ∀ m ∈ p.appendCopies size, ∀ j, m.dst ≤ j → j < m.dst + m.count →
      ¬ p.Unread j := by
    rintro m hm j hlo hhi hj
    obtain ⟨k, hlt, hfree⟩ := h.count_of_mem_appendCopies hsize hm hlo hhi
    obtain ⟨i, hi, hheld⟩ := h.unread_iff.mp hj
    exact h.free_ne_unread hi (Nat.lt_of_lt_of_le hlt hk) (hfree.trans hheld.symm)
  rcases h.appendCopies_cases size with ⟨hfit, heq⟩ | ⟨hwrap, heq⟩
  · refine ⟨hover, hhead, htail, ?_, ?_, ?_, hunread⟩
    · rw [heq]
      exact Nat.zero_add size
    · rw [heq]
      exact List.forall_mem_singleton.mpr (Nat.le_of_eq (Nat.zero_add size))
    · rw [heq]
      exact List.forall_mem_singleton.mpr hfit
  · -- the head goes up to the physical end, the tail is what is left of the chunk
    generalize hlen : C.value - w % C.value = head at heq
    refine ⟨hover, hhead, htail, ?_, ?_, ?_, hunread⟩
    · rw [heq]
      show 0 + head + (size - head) = size
      omega
    · rw [heq]
      refine List.forall_mem_cons.mpr ⟨?_, List.forall_mem_singleton.mpr ?_⟩
      · show 0 + head ≤ size
        omega
      · show head + (size - head) ≤ size
        omega
    · rw [heq]
      refine List.forall_mem_cons.mpr ⟨?_, List.forall_mem_singleton.mpr ?_⟩
      · show w % C.value + head ≤ C.value
        omega
      · show 0 + (size - head) ≤ C.value
        omega

end Linked

end FrameParser

/-- **Every access of the parser stays in bounds**, after any calls: the read position is a
multiple of 64 and at most a buffer behind the write position, an accepted chunk is copied
into free cells of the buffer, and the 64 bytes of `readable_span` lie inside the buffer
and are the next 64 of the accepted bytes that no message was made of. -/
theorem accesses_in_bounds {ts : List (Taken (FrameParser C) Call)} {p : FrameParser C}
    (h : CallRun ts p) :
    p.readPos.toNat % kFrameSize = 0 ∧ (p.writePos - p.readPos).toNat ≤ C.value ∧
      (∀ bytes, (p.append bytes).1 = true → p.CopiesInBounds bytes.length) ∧
      (kFrameSize ≤ p.size.toNat →
        FrameParser.bufferIdx C p.readPos + kFrameSize ≤ C.value ∧
        p.readableSpan = p.contents.take kFrameSize ∧
        p.readableSpan
          = ((fed ts).drop (kFrameSize * (produced ts).length)).take kFrameSize) := by
  obtain ⟨hwf, rs, hrs, hdec⟩ := h.simulates.2
  have hcount : (produced ts).length = rs.length := by
    simpa only [List.length_map] using congrArg List.length hrs
  have hspec := hwf.append_spec
  obtain ⟨r, w, hlinked⟩ := hwf
  have hsize : (p.writePos - p.readPos).toNat = w - r := hlinked.size_eq
  refine ⟨?_, ?_, fun bytes hok => ?_, fun hlong => ?_⟩
  · rw [hlinked.readPos_eq, Nat.mod_mod_of_dvd _ (by decide)]
    exact hlinked.aligned
  · rw [hsize]
    exact hlinked.size_le
  · refine hlinked.copiesInBounds ?_
    rcases hspec bytes with ⟨hfit, -⟩ | ⟨-, hfull⟩
    · exact hlinked.length_contents ▸ hfit
    · cases (congrArg Prod.fst hfull).symm.trans hok
  · have hspan := hlinked.readableSpan_eq (hlinked.size_eq ▸ hlong)
    refine ⟨?_, hspan, ?_⟩
    · rw [C.bufferIdx_eq hlinked.readPos_eq]
      exact hlinked.frame_fits
    · rw [hspan, hdec.rest_eq, hcount]

/-- Four frames. -/
def fourFrames : ParserCapacity := ⟨256, rfl, ⟨8, rfl⟩, by decide⟩

/-- One frame was parsed and one is waiting, and a chunk takes all that is left: it comes
round and ends where the waiting frame begins. -/
theorem accesses_in_bounds_full :
    let frame := ((OrderMessage.newOrder {} {}).encode zeroBuffer).2
    ∃ ts p, replay perform (FrameParser.fresh (C := fourFrames))
        [.append frame, .tryParse {}, .append frame] = some (ts, p) ∧
      p.appendCopies 192 = [⟨128, 0, 128⟩, ⟨0, 128, 64⟩] ∧ p.CopiesInBounds 192 ∧
      FrameParser.bufferIdx fourFrames p.readPos + kFrameSize ≤ 256 ∧
      p.readableSpan = ((fed ts).drop (kFrameSize * 1)).take kFrameSize := by
  intro frame
  have hcheck : (replay perform (FrameParser.fresh (C := fourFrames))
      [.append frame, .tryParse {}, .append frame]).map (fun r =>
        ((produced r.1).length, r.2.appendCopies 192,
          (r.2.append (List.replicate 192 0)).1, r.2.size.toNat))
      = some (1, [⟨128, 0, 128⟩, ⟨0, 128, 64⟩], true, kFrameSize) := by decide +kernel
  obtain ⟨⟨ts, p⟩, hts, heq⟩ := Option.map_eq_some_iff.mp hcheck
  obtain ⟨hone, hcopies, hok, hsize⟩ : _ ∧ _ ∧ _ ∧ _ := by simpa only [Prod.mk.injEq] using heq
  have hrun := CallRun.of_replay hts
  obtain ⟨-, -, happend, hread⟩ := accesses_in_bounds hrun
  obtain ⟨hinside, -, hlogical⟩ := hread (Nat.le_of_eq hsize.symm)
  have hcopied := happend (List.replicate 192 0) hok
  rw [List.length_replicate] at hcopied
  exact ⟨ts, p, hts, hcopies, hcopied, hinside, hone ▸ hlogical⟩

end TradingGateway.OrderEntry
