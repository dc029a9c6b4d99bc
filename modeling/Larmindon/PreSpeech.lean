/-
# `PreSpeech` — the pre-speech ring as a bounded queue

What the VAD needs of its ring is a queue of the last samples (`BoundedQueue`):
what goes over the capacity is lost at the old end, and a drain gives the rest
in order.  The ring stores neither where its oldest sample lies nor which cells
are in use.  It has a position to write at and a count, and a drain leaves the
old samples in their cells.

The two are related by the samples pushed since the last drain, which neither
of them has: the ring holds all of them (`Holds`), and the queue the last ones.
Each operation on the queue is matched by the ring, with the same output and
without an index outside of the data (`refines_step`), and so is every run.
-/
import Larmindon.Lib.BoundedQueue
import Larmindon.Vad

namespace Larmindon.PreSpeechRingBuffer

variable {S : Type} {n : ℕ}

/-- An operation on the ring; there is no step where it panics. -/
def step : Mealy.Step (PreSpeechRingBuffer S) (BoundedQueue.Op S) (List S)
  | rb, .push samples => (rb.pushSlice samples).map fun rb => (rb, [])
  | rb, .drain => rb.drainAll.map fun (out, rb) => (rb, [out])

/-- The ring and the queue, by the samples pushed since both were drained. -/
def Refines (rb : PreSpeechRingBuffer S) (q : BoundedQueue S n) : Prop :=
  ∃ xs, rb.Holds xs ∧ rb.capacity = n ∧ q.items = xs.rtake n

theorem refines_new [Zero S] (h : 1 ≤ n) :
    (new n : PreSpeechRingBuffer S).Refines (BoundedQueue.empty : BoundedQueue S n) :=
  ⟨[], .new h, rfl, (List.rtake_nil n).symm⟩

/-- The ring matches every operation. -/
theorem refines_step {rb : PreSpeechRingBuffer S} {q q' : BoundedQueue S n} {op : BoundedQueue.Op S}
    {outs : List (List S)} (h : rb.Refines q) (hq : q.step op = some (q', outs)) :
    ∃ rb', rb.step op = some (rb', outs) ∧ rb'.Refines q' := by
  obtain ⟨xs, hxs, hn, hitems⟩ := h
  cases op with
  | push samples =>
      cases hq
      obtain ⟨rb', hpush, hholds, hcapacity⟩ := hxs.pushSlice samples
      refine ⟨rb', ?_, xs ++ samples, hholds, hcapacity.trans hn, ?_⟩
      · rw [step, hpush, Option.map_some]
      · show (q.items ++ samples).rtake n = (xs ++ samples).rtake n
        rw [hitems, BoundedQueue.rtake_append]
  | drain =>
      cases hq
      obtain ⟨rb', hdrain, hholds, hcapacity⟩ := hxs.drainAll
      refine ⟨rb', ?_, [], hholds, hcapacity.trans hn, (List.rtake_nil n).symm⟩
      rw [step, hdrain, Option.map_some, hn, hitems]

/-- **The ring refines a bounded queue.**  For every capacity above zero and all operations, with
slices of any length: no index is outside of the data, the drains give what those of the queue give,
and one that follows gives the last samples pushed since the drain before it, in their order, as many
as the capacity allows. -/
theorem ring_refines_queue [Zero S] {capacity : ℕ} (h : 1 ≤ capacity)
    (ops : List (BoundedQueue.Op S)) :
    ∃ (rb : PreSpeechRingBuffer S) (q : BoundedQueue S capacity) (outs : List (List S)),
      Mealy.run step (new capacity) ops = some (rb, outs) ∧
      Mealy.run BoundedQueue.step .empty ops = some (q, outs) ∧
      ∃ out rb', rb.drainAll = some (out, rb') ∧
        out = (BoundedQueue.pushedSinceDrain ops).rtake capacity ∧
        out.length = min capacity (BoundedQueue.pushedSinceDrain ops).length := by
  obtain ⟨q, outs, hq, hitems⟩ := BoundedQueue.run_items (n := capacity) ops
  obtain ⟨rb, hrb, xs, hxs, hcapacity, hlast⟩ := Mealy.run_simulates
    (fun _ _ _ _ _ => refines_step) (refines_new h) hq
  obtain ⟨rb', hdrain, -, -⟩ := hxs.drainAll
  rw [hcapacity, ← hlast, hitems] at hdrain
  exact ⟨rb, q, outs, hrb, hq, _, rb', hdrain, rfl, BoundedQueue.length_rtake _ _⟩

/-- A ring that is filled and wraps, is drained, and is not filled again. -/
theorem ring_refines_queue_wrapped :
    let ops : List (BoundedQueue.Op ℕ) := [.push [1, 2, 3], .push [4], .drain, .push [9]]
    ∃ rb rb', Mealy.run step (new 3) ops = some (rb, [[2, 3, 4]]) ∧
      rb.drainAll = some ([9], rb') := by
  intro ops
  obtain ⟨rb, q, outs, hrb, -, out, rb', hdrain, rfl, -⟩ := ring_refines_queue (Nat.succ_pos 2) ops
  have houts : (Mealy.run step (new 3) ops).map Prod.snd = some [[2, 3, 4]] := by decide
  rw [hrb] at houts
  obtain rfl : outs = [[2, 3, 4]] := Option.some.inj houts
  exact ⟨rb, rb', hrb, hdrain⟩

end Larmindon.PreSpeechRingBuffer
