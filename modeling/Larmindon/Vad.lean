/-
# `Vad` — the pre-speech ring buffer and the VAD state machine

While the machine hears silence it keeps the frames it is given in a ring, so
that the onset of an utterance can be delivered with what came just before it.
The abstract ring is the list of samples pushed since it was last drained; the
ring at work shows its last `capacity` samples (`List.rtake`).

    pushSlice on a ring that holds xs    holds xs ++ samples          (`Holds.pushSlice`)
    drainAll on a ring that holds xs     gives the last C of xs, and
                                         holds nothing                (`Holds.drainAll`)
    process, by what it decides          `Gates`, four cases          (`process_gates`)
    process, by what it changes          `Moves`, four cases          (`moves_of_process`)

A sample is of any type with a zero, which is what a new ring is filled with;
a probability is of any type with a decidable order, of which no law is used
(the source's is `f32`, whose order is not total).
-/
import Mathlib.Algebra.GroupWithZero.Nat
import Mathlib.Data.List.DropRight

namespace Larmindon

variable {S P : Type}

/-! ## The ring -/

/-- The last samples before an onset.  `data` never changes its length. -/
structure PreSpeechRingBuffer (S : Type) where
  data : List S
  capacity : ℕ
  writePos : ℕ
  len : ℕ
  deriving DecidableEq, Repr

namespace PreSpeechRingBuffer

/-- A ring of zeroes that holds nothing. -/
def new [Zero S] (capacity : ℕ) : PreSpeechRingBuffer S where
  data := List.replicate capacity 0
  capacity := capacity
  writePos := 0
  len := 0

/-- One turn of the loop of `push_slice`; `none` where it panics: an index outside of `data`, or a
remainder by zero. -/
def write (rb : PreSpeechRingBuffer S) (s : S) : Option (PreSpeechRingBuffer S) :=
  if rb.writePos < rb.data.length ∧ 0 < rb.capacity then
    some { rb with
      data := rb.data.set rb.writePos s
      writePos := (rb.writePos + 1) % rb.capacity }
  else
    none

def pushSlice (rb : PreSpeechRingBuffer S) (samples : List S) : Option (PreSpeechRingBuffer S) :=
  match samples.foldlM write rb with
  | none => none
  | some rb' => some { rb' with len := min (rb'.len + samples.length) rb'.capacity }

/-- All the samples held, oldest first, and the ring without them.  `none` where an index is outside
of `data`. -/
def drainAll (rb : PreSpeechRingBuffer S) : Option (List S × PreSpeechRingBuffer S) :=
  if rb.len = 0 then
    some ([], rb)
  else
    let start := if rb.len < rb.capacity then 0 else rb.writePos
    match (List.range rb.len).mapM fun i => rb.data[(start + i) % rb.capacity]? with
    | none => none
    | some out => some (out, { rb with len := 0, writePos := 0 })

/-! ## What the ring holds -/

/-- The cells after `xs` was written from a drained ring on: sample `j` of it lies at `j` modulo the
capacity, unless a later one was written over it. -/
structure Written (rb : PreSpeechRingBuffer S) (xs : List S) : Prop where
  capacity_pos : 0 < rb.capacity
  size : rb.data.length = rb.capacity
  writePos : rb.writePos = xs.length % rb.capacity
  cells : ∀ j, j < xs.length → xs.length ≤ j + rb.capacity → rb.data[j % rb.capacity]? = xs[j]?

/-- The ring as the list of the samples pushed since it was last drained. -/
structure Holds (rb : PreSpeechRingBuffer S) (xs : List S) : Prop extends Written rb xs where
  len : rb.len = min xs.length rb.capacity

theorem Holds.new [Zero S] {capacity : ℕ} (h : 0 < capacity) :
    (PreSpeechRingBuffer.new capacity : PreSpeechRingBuffer S).Holds [] where
  capacity_pos := h
  size := List.length_replicate
  writePos := (Nat.zero_mod capacity).symm
  cells := by
    intro j hj
    exact absurd hj (Nat.not_lt_zero j)
  len := (Nat.zero_min capacity).symm

/-- Two samples less than a capacity apart lie in different cells. -/
theorem mod_ne_of_lt {j n c : ℕ} (hj : j < n) (hn : n < j + c) : j % c ≠ n % c := by
  intro h
  have hd : (n - j) % c = 0 := Nat.sub_mod_eq_zero_of_mod_eq h.symm
  rw [Nat.mod_eq_of_lt (by omega)] at hd
  omega

theorem Written.write {rb : PreSpeechRingBuffer S} {xs : List S} (h : rb.Written xs) (s : S) :
    ∃ rb', rb.write s = some rb' ∧ rb'.Written (xs ++ [s]) ∧ rb'.capacity = rb.capacity ∧
      rb'.len = rb.len := by
  have hpos : rb.writePos < rb.capacity := by
    rw [h.writePos]
    exact Nat.mod_lt _ h.capacity_pos
  refine ⟨_, if_pos ⟨by rw [h.size]; exact hpos, h.capacity_pos⟩, ?_, rfl, rfl⟩
  refine ⟨h.capacity_pos, ?_, ?_, ?_⟩
  · show (rb.data.set rb.writePos s).length = rb.capacity
    rw [List.length_set, h.size]
  · show (rb.writePos + 1) % rb.capacity = (xs ++ [s]).length % rb.capacity
    rw [h.writePos, List.length_append, List.length_singleton, Nat.mod_add_mod]
  · intro j hj hc
    show (rb.data.set rb.writePos s)[j % rb.capacity]? = (xs ++ [s])[j]?
    simp only [List.length_append, List.length_singleton] at hj hc
    rw [h.writePos]
    cases Nat.lt_or_ge j xs.length with
    | inl hlt =>
      have hne := mod_ne_of_lt hlt (show xs.length < j + rb.capacity by omega)
      rw [List.getElem?_set_ne hne.symm, List.getElem?_append_left hlt]
      exact h.cells j hlt (by omega)
    | inr hge =>
      obtain rfl : j = xs.length := by omega
      rw [List.getElem?_set_self (by rw [h.size]; exact Nat.mod_lt _ h.capacity_pos)]
      simp

/-- The loop of `push_slice`, by induction on what is left of the slice. -/
theorem Written.foldlM_write (samples : List S) : ∀ {rb : PreSpeechRingBuffer S} {xs : List S},
    rb.Written xs → ∃ rb', samples.foldlM PreSpeechRingBuffer.write rb = some rb' ∧
      rb'.Written (xs ++ samples) ∧ rb'.capacity = rb.capacity ∧ rb'.len = rb.len := by
  induction samples with
  | nil =>
      intro rb xs h
      exact ⟨rb, rfl, by simpa using h, rfl, rfl⟩
  | cons s samples ih =>
      intro rb xs h
      obtain ⟨rb₁, hw, h₁, hc₁, hl₁⟩ := h.write s
      obtain ⟨rb₂, hf, h₂, hc₂, hl₂⟩ := ih h₁
      refine ⟨rb₂, ?_, by simpa [List.append_assoc] using h₂, hc₂.trans hc₁, hl₂.trans hl₁⟩
      rw [List.foldlM_cons, hw]
      exact hf

/-- A push appends, whatever the length of the slice. -/
theorem Holds.pushSlice {rb : PreSpeechRingBuffer S} {xs : List S} (h : rb.Holds xs)
    (samples : List S) :
    ∃ rb', rb.pushSlice samples = some rb' ∧ rb'.Holds (xs ++ samples) ∧
      rb'.capacity = rb.capacity := by
  obtain ⟨rb', hf, hw, hc, hl⟩ := h.toWritten.foldlM_write samples
  refine ⟨{ rb' with len := min (rb'.len + samples.length) rb'.capacity }, ?_, ⟨?_, ?_⟩, hc⟩
  · simp only [PreSpeechRingBuffer.pushSlice, hf]
  · exact ⟨hw.capacity_pos, hw.size, hw.writePos, hw.cells⟩
  · show min (rb'.len + samples.length) rb'.capacity = min (xs ++ samples).length rb'.capacity
    rw [hl, h.len, hc, List.length_append]
    omega

/-- Reading a list by its indices. -/
theorem mapM_range_getElem? {f : ℕ → Option S} {l : List S} (h : ∀ i < l.length, f i = l[i]?) :
    (List.range l.length).mapM f = some l := by
  induction l using List.reverseRecOn with
  | nil => rfl
  | append_singleton l x ih =>
      have hl : (List.range l.length).mapM f = some l := by
        apply ih
        intro i hi
        rw [h i (by simp; omega), List.getElem?_append_left hi]
      have hx : f l.length = some x := by
        rw [h l.length (by simp)]
        simp
      rw [List.length_append, List.length_singleton, List.range_succ, List.mapM_append, hl]
      simp [hx]

/-- Draining a ring that holds `xs` gives the last `capacity` samples of `xs`, in order. -/
theorem Holds.drainAll {rb : PreSpeechRingBuffer S} {xs : List S} (h : rb.Holds xs) :
    ∃ rb', rb.drainAll = some (xs.rtake rb.capacity, rb') ∧ rb'.Holds [] ∧
      rb'.capacity = rb.capacity := by
  have hC := h.capacity_pos
  have hlen : (xs.rtake rb.capacity).length = rb.len := by
    rw [List.rtake, List.length_drop, h.len]
    omega
  cases Nat.eq_zero_or_pos rb.len with
  | inl h0 =>
      have hxs : xs = [] := by
        rw [h.len] at h0
        exact List.eq_nil_of_length_eq_zero (by omega)
      subst hxs
      exact ⟨rb, by simp [PreSpeechRingBuffer.drainAll, h0], h, rfl⟩
  | inr hpos =>
      have hread : (List.range rb.len).mapM (fun i =>
            rb.data[((if rb.len < rb.capacity then 0 else rb.writePos) + i) % rb.capacity]?) =
          some (xs.rtake rb.capacity) := by
        rw [← hlen]
        apply mapM_range_getElem?
        intro i hi
        rw [hlen] at hi ⊢
        rw [List.rtake, List.getElem?_drop]
        have hle := h.len
        cases Nat.lt_or_ge xs.length rb.capacity with
        | inl hlt =>
            -- Nothing was written over: the oldest sample lies in the first cell.
            rw [if_pos (by omega), Nat.sub_eq_zero_of_le (Nat.le_of_lt hlt)]
            exact h.cells (0 + i) (by omega) (by omega)
        | inr hge =>
            -- The ring has wrapped: the oldest sample lies where the next one would go.
            rw [if_neg (by omega), h.writePos, Nat.mod_add_mod,
              ← h.cells (xs.length - rb.capacity + i) (by omega) (by omega),
              ← Nat.add_mod_right (xs.length - rb.capacity + i) rb.capacity,
              show xs.length - rb.capacity + i + rb.capacity = xs.length + i by omega]
      refine ⟨{ rb with len := 0, writePos := 0 }, ?_, ⟨⟨hC, h.size, ?_, ?_⟩, ?_⟩, rfl⟩
      · simp only [PreSpeechRingBuffer.drainAll, if_neg (Nat.ne_of_gt hpos), hread]
      · exact (Nat.zero_mod rb.capacity).symm
      · intro j hj
        exact absurd hj (Nat.not_lt_zero j)
      · exact (Nat.zero_min rb.capacity).symm

end PreSpeechRingBuffer

/-! ## The state machine -/

inductive VadState where
  | silence
  | speech
  deriving DecidableEq, Repr

inductive VadDecision (S : Type) where
  /-- The frame is silence and lies in the ring. -/
  | silence
  /-- Speech just started; the ring was drained into the samples. -/
  | speechStarted (preSpeechSamples : List S)
  | speechContinues
  /-- Speech just ended, with this frame. -/
  | speechEnded
  deriving DecidableEq, Repr

/-- The counters are the source's `u32`; without overflow checks they wrap, as here. -/
structure VadStateMachine (S P : Type) where
  ringBuffer : PreSpeechRingBuffer S
  state : VadState
  thresholdStart : P
  thresholdEnd : P
  minSilenceFrames : UInt32
  minSpeechFrames : UInt32
  speechFrameCount : UInt32
  silenceFrameCount : UInt32

namespace VadStateMachine

/-- `VAD_SAMPLE_RATE`. -/
def vadSampleRate : ℕ := 16000

/-- `VAD_CHUNK_SIZE` samples at the sample rate, in milliseconds. -/
def frameMs : UInt32 := 32

def new [Zero S] (thresholdStart thresholdEnd : P) (minSilenceDurationMs minSpeechDurationMs : UInt32)
    (preSpeechMs : ℕ) : VadStateMachine S P where
  ringBuffer := .new (vadSampleRate * preSpeechMs / 1000)
  state := .silence
  thresholdStart := thresholdStart
  thresholdEnd := thresholdEnd
  minSilenceFrames := minSilenceDurationMs / frameMs
  minSpeechFrames := minSpeechDurationMs / frameMs
  speechFrameCount := 0
  silenceFrameCount := 0

def reset [Zero S] (m : VadStateMachine S P) : VadStateMachine S P :=
  { m with
    ringBuffer := .new m.ringBuffer.capacity
    state := .silence
    speechFrameCount := 0
    silenceFrameCount := 0 }

def updateParams (m : VadStateMachine S P) (thresholdStart thresholdEnd : P)
    (minSilenceDurationMs minSpeechDurationMs : UInt32) : VadStateMachine S P :=
  { m with
    thresholdStart := thresholdStart
    thresholdEnd := thresholdEnd
    minSilenceFrames := minSilenceDurationMs / frameMs
    minSpeechFrames := minSpeechDurationMs / frameMs }

/-- `saturating_sub(1)`. -/
def leak (n : UInt32) : UInt32 := if n = 0 then 0 else n - 1

section Process

variable [LE P] [DecidableLE P]

/-- `process` in silence: the frame is speech, or it is not.  A frame below the threshold costs one
frame of progress rather than all of it. -/
def processSilence (m : VadStateMachine S P) (isSpeech : Bool) (frame : List S) :
    Option (VadDecision S × VadStateMachine S P) :=
  if isSpeech then
    let speechFrameCount := m.speechFrameCount + 1
    if m.minSpeechFrames ≤ speechFrameCount then
      match m.ringBuffer.drainAll with
      | none => none
      | some (preSpeech, ringBuffer) => some (.speechStarted preSpeech,
          { m with ringBuffer, state := .speech, speechFrameCount, silenceFrameCount := 0 })
    else
      match m.ringBuffer.pushSlice frame with
      | none => none
      | some ringBuffer => some (.silence,
          { m with ringBuffer, speechFrameCount, silenceFrameCount := 0 })
  else
    match m.ringBuffer.pushSlice frame with
    | none => none
    | some ringBuffer => some (.silence,
        { m with
          ringBuffer
          speechFrameCount := leak m.speechFrameCount
          silenceFrameCount := m.silenceFrameCount + 1 })

/-- `process` in speech; the ring is not touched. -/
def processSpeech (m : VadStateMachine S P) (isSpeech : Bool) :
    VadDecision S × VadStateMachine S P :=
  if isSpeech then
    (.speechContinues,
      { m with speechFrameCount := m.speechFrameCount + 1, silenceFrameCount := 0 })
  else
    let silenceFrameCount := m.silenceFrameCount + 1
    if m.minSilenceFrames ≤ silenceFrameCount then
      (.speechEnded, { m with state := .silence, silenceFrameCount, speechFrameCount := 0 })
    else
      -- A brief pause is still speech.
      (.speechContinues, { m with silenceFrameCount, speechFrameCount := 0 })

/-- The decision on a frame of the given speech probability; `none` where the ring panics. -/
def process (m : VadStateMachine S P) (prob : P) (frame : List S) :
    Option (VadDecision S × VadStateMachine S P) :=
  match m.state with
  | .silence => m.processSilence (decide (m.thresholdStart ≤ prob)) frame
  | .speech => some (m.processSpeech (decide (m.thresholdEnd ≤ prob)))

/-! ## What a frame does -/

/-- What `process` can make of a machine, whatever it counts. -/
inductive Moves (m : VadStateMachine S P) (frame : List S) :
    VadDecision S → VadStateMachine S P → Prop
  | kept {ringBuffer : PreSpeechRingBuffer S} (hs : m.state = .silence)
      (hp : m.ringBuffer.pushSlice frame = some ringBuffer)
      (speechFrameCount silenceFrameCount : UInt32) :
      Moves m frame .silence { m with ringBuffer, speechFrameCount, silenceFrameCount }
  | started {preSpeech : List S} {ringBuffer : PreSpeechRingBuffer S} (hs : m.state = .silence)
      (hd : m.ringBuffer.drainAll = some (preSpeech, ringBuffer)) (speechFrameCount : UInt32) :
      Moves m frame (.speechStarted preSpeech)
        { m with ringBuffer, state := .speech, speechFrameCount, silenceFrameCount := 0 }
  | continues (hs : m.state = .speech) (speechFrameCount silenceFrameCount : UInt32) :
      Moves m frame .speechContinues { m with speechFrameCount, silenceFrameCount }
  | ended (hs : m.state = .speech) (silenceFrameCount : UInt32) :
      Moves m frame .speechEnded
        { m with state := .silence, silenceFrameCount, speechFrameCount := 0 }

theorem moves_of_process {m m' : VadStateMachine S P} {prob : P} {frame : List S}
    {d : VadDecision S} (h : m.process prob frame = some (d, m')) : m.Moves frame d m' := by
  rw [process] at h
  cases hs : m.state with
  | silence =>
      rw [hs] at h
      simp only [processSilence] at h
      split at h
      · split at h
        · split at h
          case h_1 => cases h
          case h_2 hd =>
            cases h
            exact .started hs hd _
        · split at h
          case h_1 => cases h
          case h_2 hp =>
            cases h
            exact .kept hs hp _ _
      · split at h
        case h_1 => cases h
        case h_2 hp =>
          cases h
          exact .kept hs hp _ _
  | speech =>
      rw [hs] at h
      simp only [processSpeech] at h
      split at h
      · cases h
        exact .continues hs _ _
      · split at h
        · cases h
          exact .ended hs _
        · cases h
          exact .continues hs _ _

/-- What `process` can decide on a frame when the ring holds `xs`, and what the ring holds then. -/
inductive Gates (xs frame : List S) (m m' : VadStateMachine S P) : VadDecision S → List S → Prop
  | silence (hs : m.state = .silence) (hs' : m'.state = .silence) :
      Gates xs frame m m' .silence (xs ++ frame)
  | started (hs : m.state = .silence) (hs' : m'.state = .speech) :
      Gates xs frame m m' (.speechStarted (xs.rtake m.ringBuffer.capacity)) []
  | continues (hs : m.state = .speech) (hs' : m'.state = .speech) :
      Gates xs frame m m' .speechContinues xs
  | ended (hs : m.state = .speech) (hs' : m'.state = .silence) :
      Gates xs frame m m' .speechEnded xs

/-- A frame is either kept in the ring or decided on, never both, and `process` does not panic. -/
theorem process_gates {m : VadStateMachine S P} {xs : List S} (h : m.ringBuffer.Holds xs) (prob : P)
    (frame : List S) :
    ∃ d m' xs', m.process prob frame = some (d, m') ∧ Gates xs frame m m' d xs' ∧
      m'.ringBuffer.Holds xs' ∧ m'.ringBuffer.capacity = m.ringBuffer.capacity := by
  obtain ⟨pushed, hp, hpush, hpc⟩ := h.pushSlice frame
  obtain ⟨drained, hd, hdrain, hdc⟩ := h.drainAll
  cases hs : m.state with
  | silence =>
      simp only [process, hs, processSilence, hp, hd]
      cases decide (m.thresholdStart ≤ prob) with
      | false => exact ⟨_, _, xs ++ frame, rfl, .silence hs rfl, hpush, hpc⟩
      | true =>
          cases Decidable.em (m.minSpeechFrames ≤ m.speechFrameCount + 1) with
          | inl hm =>
              simp only [if_true, if_pos hm]
              exact ⟨_, _, [], rfl, .started hs rfl, hdrain, hdc⟩
          | inr hm =>
              simp only [if_true, if_neg hm]
              exact ⟨_, _, xs ++ frame, rfl, .silence hs rfl, hpush, hpc⟩
  | speech =>
      simp only [process, hs, processSpeech]
      cases decide (m.thresholdEnd ≤ prob) with
      | true => exact ⟨_, _, xs, rfl, .continues hs rfl, h, rfl⟩
      | false =>
          cases Decidable.em (m.minSilenceFrames ≤ m.silenceFrameCount + 1) with
          | inl hm =>
              simp only [Bool.false_eq_true, if_false, if_pos hm]
              exact ⟨_, _, xs, rfl, .ended hs rfl, h, rfl⟩
          | inr hm =>
              simp only [Bool.false_eq_true, if_false, if_neg hm]
              exact ⟨_, _, xs, rfl, .continues hs rfl, h, rfl⟩

end Process

end VadStateMachine

end Larmindon
