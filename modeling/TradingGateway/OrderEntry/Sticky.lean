/-
# `OrderEntry.Sticky` — after a protocol error

A call of `try_parse` that finds no message leaves `out` and the parser as they were, so
a frame it refuses is still at the read position, and nothing moves it from there:

| later call | read position | the 64 bytes behind it |
| :-- | :-- | :-- |
| `append`, refused | as it was | as they were |
| `append`, accepted | as it was | no copy reaches them (`Stuck.not_writes`) |
| `try_parse` | refuses the frame again | as they were |

The second row is where a ring could go wrong.  A chunk that runs over the physical end
comes round to the cells before the read position, and it stops there because it fits:
the byte `i` of the frame and the byte `k` of the chunk belong to counts less than a lap
apart, hence to different cells.

So `Stuck` is kept by every call, and holds for good.
-/
import TradingGateway.OrderEntry.Stream

namespace TradingGateway.OrderEntry

open Lib Lib.Cyclic

variable {C : ParserCapacity}

/-- The cells of the ring that a call made on `p` writes to. -/
def Call.Writes (p : FrameParser C) (j : Nat) : Call → Prop
  | append chunk true => ∃ m ∈ p.appendCopies chunk.length, m.dst ≤ j ∧ j < m.dst + m.count
  | append _ false | tryParse _ _ _ => False

namespace FrameParser

variable {p p' : FrameParser C}

/-- The first buffered frame is complete and not a request. -/
structure Stuck (p : FrameParser C) : Prop where
  wellFormed : p.WellFormed
  long : kFrameSize ≤ p.contents.length
  bad : readRequest (p.contents.take kFrameSize) = none

/-- The next call of `try_parse` reports a protocol error exactly then. -/
theorem WellFormed.protocolError_iff (h : p.WellFormed) (prior : DecodedMessage) :
    (p.tryParse prior).1 = .protocolError ↔ p.Stuck := by
  rcases h.tryParse_spec prior with ⟨short, heq⟩ | ⟨long, bad, heq⟩ | ⟨_, _, _, good, heq, -⟩
  · rw [heq]
    exact ⟨nofun, fun stuck => absurd stuck.long (Nat.not_le.mpr short)⟩
  · rw [heq]
    exact ⟨fun _ => ⟨h, long, bad⟩, fun _ => rfl⟩
  · rw [heq]
    refine ⟨nofun, fun stuck => ?_⟩
    cases stuck.bad.symm.trans good

theorem WellFormed.tryParse_idle (h : p.WellFormed) {prior : DecodedMessage}
    (hstatus : (p.tryParse prior).1 = .needMoreData ∨ (p.tryParse prior).1 = .protocolError) :
    (p.tryParse prior).2 = (prior, p) := by
  rcases h.tryParse_spec prior with ⟨-, heq⟩ | ⟨-, -, heq⟩ | ⟨_, _, -, -, heq, -⟩
  · rw [heq]
  · rw [heq]
  · rw [heq] at hstatus
    rcases hstatus with hstatus | hstatus
    · cases hstatus
    · cases hstatus

theorem readPos_append (p : FrameParser C) (bytes : List UInt8) :
    (p.append bytes).2.readPos = p.readPos := by
  unfold append
  split_ifs
  · rfl
  · rfl
  · rfl

namespace Stuck

theorem readableSpan_eq (h : p.Stuck) : p.readableSpan = p.contents.take kFrameSize := by
  obtain ⟨r, w, hlinked⟩ := h.wellFormed
  exact hlinked.readableSpan_eq (hlinked.length_contents ▸ h.long)

theorem not_writes (h : p.Stuck) {c : Call} (hs : Call.Step p c p') {i : Nat}
    (hi : i < kFrameSize) : ¬ c.Writes p (bufferIdx C p.readPos + i) := by
  obtain ⟨r, w, hlinked⟩ := h.wellFormed
  have hlong : kFrameSize ≤ w - r := hlinked.length_contents ▸ h.long
  intro hwrites
  match c, hs, hwrites with
  | .append chunk true, hs, ⟨m, hm, hlo, hhi⟩ =>
      have hfit : chunk.length ≤ C.value - (w - r) := by
        rcases h.wellFormed.append_spec chunk with ⟨hle, -⟩ | ⟨-, heq⟩
        · exact hlinked.length_contents ▸ hle
        · cases heq.symm.trans hs
      have hsize : chunk.length ≤ C.value := hfit.trans (Nat.sub_le _ _)
      obtain ⟨k, hk, hcell⟩ := hlinked.count_of_mem_appendCopies hsize hm hlo hhi
      have hfits := hlinked.frame_fits
      rw [C.bufferIdx_eq hlinked.readPos_eq, ← add_mod_of_fit (by omega)] at hcell
      exact hlinked.free_ne_unread (by omega) (by omega) hcell

/-- **One call**: the parser stays stuck at the same frame. -/
theorem step (h : p.Stuck) {c : Call} (hs : Call.Step p c p') :
    p'.Stuck ∧ p'.readPos = p.readPos ∧ p'.contents = p.contents ++ c.fed := by
  cases c with
  | append chunk accepted =>
      have hs : p.append chunk = (accepted, p') := hs
      have hpos := p.readPos_append chunk
      rcases h.wellFormed.append_spec chunk with ⟨-, hok, hwf, hc⟩ | ⟨-, heq⟩
      · rw [hs] at hok hwf hc hpos
        obtain rfl : accepted = true := hok
        refine ⟨⟨hwf, ?_, ?_⟩, hpos, hc⟩
        · rw [hc, List.length_append]
          exact h.long.trans (Nat.le_add_right _ _)
        · rw [hc, List.take_append_of_le_length h.long]
          exact h.bad
      · obtain ⟨rfl, rfl⟩ := Prod.mk.inj (heq.symm.trans hs)
        exact ⟨h, rfl, (List.append_nil _).symm⟩
  | tryParse prior status out =>
      have hs : p.tryParse prior = (status, out, p') := hs
      have hidle := h.wellFormed.tryParse_idle (Or.inr ((h.wellFormed.protocolError_iff prior).mpr h))
      rw [hs] at hidle
      obtain ⟨-, rfl⟩ := Prod.mk.inj hidle
      have hfed : (Call.tryParse prior status out).fed = [] := rfl
      exact ⟨h, rfl, by rw [hfed, List.append_nil]⟩

/-- **Any calls** after it. -/
theorem run (h : p.Stuck) {vs : List (Taken (FrameParser C) Call)} {q : FrameParser C}
    (hrun : Run (· = p) Call.Step vs q) :
    (q.Stuck ∧ q.readPos = p.readPos ∧ q.contents = p.contents ++ fed vs) ∧
      ∀ x ∈ vs, ∀ i < kFrameSize, ¬ x.label.Writes x.src (bufferIdx C p.readPos + i) := by
  refine hrun.invariant (I := fun vs q => (q.Stuck ∧ q.readPos = p.readPos ∧
    q.contents = p.contents ++ fed vs) ∧
      ∀ x ∈ vs, ∀ i < kFrameSize, ¬ x.label.Writes x.src (bufferIdx C p.readPos + i)) ?_ ?_
  · rintro q rfl
    exact ⟨⟨h, rfl, (List.append_nil _).symm⟩, List.forall_mem_nil _⟩
  · rintro vs q c q' - ⟨⟨stuck, hpos, hc⟩, hwrites⟩ hs
    obtain ⟨stuck', hpos', hc'⟩ := stuck.step hs
    refine ⟨⟨stuck', hpos'.trans hpos, ?_⟩, ?_⟩
    · rw [hc', hc, List.append_assoc]
      simp [fed]
    · intro x hx i hi
      rcases List.mem_append.mp hx with hx | hx
      · exact hwrites x hx i hi
      · rw [List.mem_singleton.mp hx]
        exact hpos ▸ stuck.not_writes hs hi

end Stuck

end FrameParser

/-- **Parser errors are sticky and leave everything intact.**  A call that finds no
message leaves `out` and the parser as they were; and whatever calls follow a protocol
error, the next `try_parse` reports it again, the 64 bytes of its frame are where they
were, and none of those calls wrote to them. -/
theorem errors_are_sticky {ts : List (Taken (FrameParser C) Call)} {p : FrameParser C}
    (h : CallRun ts p) (prior : DecodedMessage) :
    ((p.tryParse prior).1 = .needMoreData ∨ (p.tryParse prior).1 = .protocolError →
      (p.tryParse prior).2 = (prior, p)) ∧
    ((p.tryParse prior).1 = .protocolError →
      ∀ vs q, Run (· = (p.tryParse prior).2.2) Call.Step vs q →
        (∀ prior', (q.tryParse prior').1 = .protocolError) ∧
        q.readPos = p.readPos ∧ q.readableSpan = p.readableSpan ∧
        q.contents = p.contents ++ fed vs ∧
        ∀ x ∈ vs, ∀ i < kFrameSize,
          ¬ x.label.Writes x.src (FrameParser.bufferIdx C p.readPos + i)) := by
  have hwf := h.simulates.2.wellFormed
  refine ⟨hwf.tryParse_idle, fun herr vs q hrun => ?_⟩
  have hstuck := (hwf.protocolError_iff prior).mp herr
  rw [hwf.tryParse_idle (Or.inr herr)] at hrun
  obtain ⟨⟨hstuck', hpos, hc⟩, hwrites⟩ := hstuck.run hrun
  refine ⟨fun prior' => (hstuck'.wellFormed.protocolError_iff prior').mpr hstuck', hpos, ?_, hc,
    hwrites⟩
  rw [hstuck'.readableSpan_eq, hstuck.readableSpan_eq, hc,
    List.take_append_of_le_length hstuck.long]

/-- A frame of zeros is refused, and still is when the ring has been filled behind it. -/
theorem errors_are_sticky_zeros :
    ∃ ts vs p q,
      replay perform (FrameParser.fresh (C := twoFrames)) [.append zeroBuffer, .tryParse {}]
        = some (ts, p) ∧
      replay perform p [.append (List.replicate kFrameSize 1), .append [1]] = some (vs, q) ∧
      (p.tryParse {}).2 = ({}, p) ∧ (q.tryParse {}).1 = .protocolError ∧
      q.readableSpan = p.readableSpan := by
  have hbad : (replay perform (FrameParser.fresh (C := twoFrames))
      [.append zeroBuffer, .tryParse {}]).map (fun r => (r.2.tryParse {}).1)
        = some .protocolError := by decide +kernel
  obtain ⟨⟨ts, p⟩, hts, herr⟩ := Option.map_eq_some_iff.mp hbad
  have hrun := CallRun.of_replay hts
  obtain ⟨hidle, hlater⟩ := errors_are_sticky hrun {}
  obtain ⟨vs, q, hvs⟩ : ∃ vs q,
      replay perform p [.append (List.replicate kFrameSize 1), .append [1]] = some (vs, q) :=
    ⟨_, _, rfl⟩
  have hnext : Run (· = (p.tryParse {}).2.2) Call.Step vs q := by
    have hstart' : Run (· = p) Call.Step [] p := .start rfl
    rw [hidle (Or.inr herr)]
    exact hstart'.replay (fun _ _ _ _ => perform_step) hvs
  obtain ⟨hstatus, -, hspan, -⟩ := hlater herr vs q hnext
  exact ⟨ts, vs, p, q, hts, hvs, hidle (Or.inr herr), hstatus {}, hspan⟩

end TradingGateway.OrderEntry
