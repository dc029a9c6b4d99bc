/-
# `Boundaries` — when speech starts and when it ends, in closed form

The machine counts frames; what it counts is determined by the probabilities
since the last boundary, the decision that started or ended speech.  Call them
the stretch.

    in silence   speech starts at the first frame where some window that ends
                 the stretch has `minSpeechFrames` more frames at the start
                 threshold than below it                        (`Onset`)
    in speech    speech ends at the first frame that completes
                 `minSilenceFrames` frames in a row below the end threshold
                                                                (`Ends`)

The counter of a state is idle in the other one, so what it held before the
last boundary has no part in the next.  In silence the leaky counter is below
`minSpeechFrames` and in speech the other one below `minSilenceFrames`, which
is why neither wraps where it is compared.
-/
import Larmindon.Lib.Counters
import Larmindon.Gating

namespace Larmindon

open Counters

variable {S P : Type} [LE P] [DecidableLE P]

/-! ## The closed form -/

/-- The frame is speech by the threshold. -/
def reaches (threshold prob : P) : Bool := decide (threshold ≤ prob)

/-- A window that ends the stretch has `n` more frames that reach the threshold than do not. -/
def Onset (n : ℕ) (threshold : P) (ps : List P) : Prop :=
  ∃ w, w <:+ ps ∧ w.countP (fun p => !reaches threshold p) + n ≤ w.countP (reaches threshold)

/-- The last `n` frames of the stretch do not reach the threshold. -/
def Ends (n : ℕ) (threshold : P) (ps : List P) : Prop :=
  ∃ w, w <:+ ps ∧ w.length = n ∧ ∀ p ∈ w, reaches threshold p = false

/-- `prob` is the first frame, from the beginning of the stretch `ps` on, at which `Q` holds. -/
def First (Q : List P → Prop) (ps : List P) (prob : P) : Prop :=
  Q (ps ++ [prob]) ∧ ∀ qs, qs <+: ps → ¬ Q qs

/-- What the parameters of a machine let it decide on a frame, in a state and after a stretch. -/
def VadStateMachine.Decides (m : VadStateMachine S P) (ps : List P) (prob : P) :
    VadState → VadDecision S → Prop
  | .silence, .speechStarted _ => First (Onset m.minSpeechFrames.toNat m.thresholdStart) ps prob
  | .silence, .silence => ¬ First (Onset m.minSpeechFrames.toNat m.thresholdStart) ps prob
  | .speech, .speechEnded => First (Ends m.minSilenceFrames.toNat m.thresholdEnd) ps prob
  | .speech, .speechContinues => ¬ First (Ends m.minSilenceFrames.toNat m.thresholdEnd) ps prob
  | .silence, .speechContinues | .silence, .speechEnded => False
  | .speech, .silence | .speech, .speechStarted _ => False

/-- The stretch after one decision more. -/
def VadDecision.stretch (ps : List P) (prob : P) : VadDecision S → List P
  | .speechStarted _ | .speechEnded => []
  | .silence | .speechContinues => ps ++ [prob]

/-- The probabilities since the last boundary, or since the first frame. -/
def stretch (fs : List (VadDecision S × P)) : List P :=
  fs.foldl (fun ps f => f.1.stretch ps f.2) []

/-! ## The counters -/

theorem onset_iff {n : ℕ} {threshold : P} {ps : List P} :
    Onset n threshold ps ↔ n ≤ leaky (reaches threshold) ps := by
  rw [le_leaky_iff]
  simp only [Onset, Excess, Nat.add_comm n]

theorem ends_iff {n : ℕ} {threshold : P} {ps : List P} :
    Ends n threshold ps ↔ n ≤ streak (fun p => !reaches threshold p) ps := by
  rw [le_streak_iff]
  simp only [Ends, Bool.not_eq_true']

omit [LE P] [DecidableLE P] in
/-- One frame more at which `Q` does not hold. -/
theorem never_snoc {Q : List P → Prop} {ps : List P} {prob : P} (h : ∀ qs, qs <+: ps → ¬ Q qs)
    (hq : ¬ Q (ps ++ [prob])) : ∀ qs, qs <+: ps ++ [prob] → ¬ Q qs := by
  intro qs hqs
  rcases List.prefix_concat_iff.mp hqs with rfl | hqs
  · exact hq
  · exact h qs hqs

theorem not_onset_nil {n : UInt32} (h : 1 ≤ n) {threshold : P} :
    ∀ qs : List P, qs <+: [] → ¬ Onset n.toNat threshold qs := by
  intro qs hqs
  rw [List.prefix_nil.mp hqs, onset_iff]
  exact Nat.not_le_of_lt (UInt32.le_iff_toNat_le.mp h)

theorem not_ends_nil {n : UInt32} (h : 1 ≤ n) {threshold : P} :
    ∀ qs : List P, qs <+: [] → ¬ Ends n.toNat threshold qs := by
  intro qs hqs
  rw [List.prefix_nil.mp hqs, ends_iff]
  exact Nat.not_le_of_lt (UInt32.le_iff_toNat_le.mp h)

/-- A machine with the parameters of `m₀` after the stretch `ps`: the counter of its state holds what
the stretch determines, and has not reached its bound. -/
structure VadStateMachine.Counts (m₀ : VadStateMachine S P) (ps : List P)
    (m : VadStateMachine S P) : Prop where
  ring : ∃ xs, m.ringBuffer.Holds xs
  thresholdStart : m.thresholdStart = m₀.thresholdStart
  thresholdEnd : m.thresholdEnd = m₀.thresholdEnd
  minSpeechFrames : m.minSpeechFrames = m₀.minSpeechFrames
  minSilenceFrames : m.minSilenceFrames = m₀.minSilenceFrames
  silence : m.state = .silence →
    m.speechFrameCount.toNat = leaky (reaches m₀.thresholdStart) ps ∧
    ∀ qs, qs <+: ps → ¬ Onset m₀.minSpeechFrames.toNat m₀.thresholdStart qs
  speech : m.state = .speech →
    m.silenceFrameCount.toNat = streak (fun p => !reaches m₀.thresholdEnd p) ps ∧
    ∀ qs, qs <+: ps → ¬ Ends m₀.minSilenceFrames.toNat m₀.thresholdEnd qs

namespace VadStateMachine

/-- A counter below a bound does not wrap. -/
theorem toNat_succ {c n : UInt32} (h : c.toNat < n.toNat) : (c + 1).toNat = c.toNat + 1 := by
  have hn := n.toNat_lt
  rw [UInt32.toNat_add, UInt32.toNat_one]
  omega

theorem toNat_leak (c : UInt32) : (leak c).toNat = c.toNat - 1 := by
  unfold leak
  split
  · next h => rw [h]; rfl
  · next h =>
      have hpos : (1 : UInt32) ≤ c := by
        rw [UInt32.le_iff_toNat_le, UInt32.toNat_one]
        have h0 : c.toNat ≠ 0 := fun h0 => h (UInt32.toNat_inj.mp h0)
        omega
      rw [UInt32.toNat_sub_of_le _ _ hpos, UInt32.toNat_one]

variable {m₀ m : VadStateMachine S P} {ps : List P}

/-- What a step leaves as it is: the parameters. -/
def SameParameters (m m' : VadStateMachine S P) : Prop :=
  m'.thresholdStart = m.thresholdStart ∧ m'.thresholdEnd = m.thresholdEnd ∧
    m'.minSpeechFrames = m.minSpeechFrames ∧ m'.minSilenceFrames = m.minSilenceFrames

/-- A step that leaves the machine in silence, behind the stretch `qs`. -/
theorem Counts.silent {m' : VadStateMachine S P} {xs : List S} {qs : List P}
    (h : Counts m₀ ps m) (hm : SameParameters m m') (hring : m'.ringBuffer.Holds xs)
    (hs : m'.state = .silence)
    (hcount : m'.speechFrameCount.toNat = leaky (reaches m₀.thresholdStart) qs)
    (hnever : ∀ rs, rs <+: qs → ¬ Onset m₀.minSpeechFrames.toNat m₀.thresholdStart rs) :
    Counts m₀ qs m' := by
  obtain ⟨hstart, hend, hspeech, hsilence⟩ := hm
  refine ⟨⟨xs, hring⟩, hstart.trans h.thresholdStart, hend.trans h.thresholdEnd,
    hspeech.trans h.minSpeechFrames, hsilence.trans h.minSilenceFrames, fun _ => ⟨hcount, hnever⟩, ?_⟩
  intro hsp
  rw [hs] at hsp
  cases hsp

/-- A step that leaves it in speech. -/
theorem Counts.speaking {m' : VadStateMachine S P} {xs : List S} {qs : List P}
    (h : Counts m₀ ps m) (hm : SameParameters m m') (hring : m'.ringBuffer.Holds xs)
    (hs : m'.state = .speech)
    (hcount : m'.silenceFrameCount.toNat = streak (fun p => !reaches m₀.thresholdEnd p) qs)
    (hnever : ∀ rs, rs <+: qs → ¬ Ends m₀.minSilenceFrames.toNat m₀.thresholdEnd rs) :
    Counts m₀ qs m' := by
  obtain ⟨hstart, hend, hspeech, hsilence⟩ := hm
  refine ⟨⟨xs, hring⟩, hstart.trans h.thresholdStart, hend.trans h.thresholdEnd,
    hspeech.trans h.minSpeechFrames, hsilence.trans h.minSilenceFrames, ?_, fun _ => ⟨hcount, hnever⟩⟩
  intro hsil
  rw [hs] at hsil
  cases hsil

/-- In silence a frame that reaches the threshold counts one, and starts speech at the bound; any
other one leaks. -/
theorem Counts.processSilence (h : Counts m₀ ps m) (hs : m.state = .silence)
    (hsilence : 1 ≤ m₀.minSilenceFrames) (prob : P) (frame : List S) :
    ∃ d m', m.processSilence (reaches m₀.thresholdStart prob) frame = some (d, m') ∧
      m₀.Decides ps prob .silence d ∧ Counts m₀ (d.stretch ps prob) m' := by
  obtain ⟨xs, hring⟩ := h.ring
  obtain ⟨pushed, hp, hpush, -⟩ := hring.pushSlice frame
  obtain ⟨drained, hd, hdrain, -⟩ := hring.drainAll
  obtain ⟨hcount, hnever⟩ := h.silence hs
  have hbelow : m.speechFrameCount.toNat < m₀.minSpeechFrames.toNat := by
    rw [hcount]
    exact Nat.lt_of_not_le fun hle => hnever ps (List.prefix_refl ps) (onset_iff.mpr hle)
  -- The machine stays in silence: the counter goes on, and has not reached its bound.
  have hstay : ∀ (c silences : UInt32),
      c.toNat = leaky (reaches m₀.thresholdStart) (ps ++ [prob]) →
      c.toNat < m₀.minSpeechFrames.toNat →
      m₀.Decides ps prob .silence (.silence : VadDecision S) ∧
      Counts m₀ (ps ++ [prob]) { m with
        ringBuffer := pushed, speechFrameCount := c, silenceFrameCount := silences } := by
    intro c silences hc hlt
    have hnot : ¬ Onset m₀.minSpeechFrames.toNat m₀.thresholdStart (ps ++ [prob]) := by
      rw [onset_iff, ← hc]
      exact Nat.not_le_of_lt hlt
    refine ⟨fun hf => hnot hf.1, ?_⟩
    exact h.silent ⟨rfl, rfl, rfl, rfl⟩ hpush hs hc (never_snoc hnever hnot)
  unfold VadStateMachine.processSilence
  simp only [hp, hd]
  cases hr : reaches m₀.thresholdStart prob with
  | false =>
      obtain ⟨hdec, hcounts⟩ := hstay (leak m.speechFrameCount) (m.silenceFrameCount + 1)
        (by rw [toNat_leak, hcount, leaky_snoc, hr]; rfl) (by rw [toNat_leak]; omega)
      exact ⟨_, _, rfl, hdec, hcounts⟩
  | true =>
      have hsucc := toNat_succ hbelow
      have hleaky : (m.speechFrameCount + 1).toNat =
          leaky (reaches m₀.thresholdStart) (ps ++ [prob]) := by
        rw [hsucc, hcount, leaky_snoc, if_pos hr]
      simp only [if_true]
      cases Decidable.em (m.minSpeechFrames ≤ m.speechFrameCount + 1) with
      | inr hlt =>
          rw [if_neg hlt]
          rw [h.minSpeechFrames] at hlt
          obtain ⟨hdec, hcounts⟩ := hstay (m.speechFrameCount + 1) 0 hleaky
            (Nat.lt_of_not_le fun hle => hlt (UInt32.le_iff_toNat_le.mpr hle))
          exact ⟨_, _, rfl, hdec, hcounts⟩
      | inl hle =>
          rw [if_pos hle]
          rw [h.minSpeechFrames] at hle
          have honset : Onset m₀.minSpeechFrames.toNat m₀.thresholdStart (ps ++ [prob]) := by
            rw [onset_iff, ← hleaky]
            exact UInt32.le_iff_toNat_le.mp hle
          refine ⟨_, _, rfl, ⟨honset, hnever⟩, ?_⟩
          exact h.speaking ⟨rfl, rfl, rfl, rfl⟩ hdrain rfl rfl (not_ends_nil hsilence)

/-- In speech a frame below the threshold counts one, and ends speech at the bound; any other one
starts the count again. -/
theorem Counts.processSpeech (h : Counts m₀ ps m) (hs : m.state = .speech)
    (hspeech : 1 ≤ m₀.minSpeechFrames) (prob : P) :
    m₀.Decides ps prob .speech (m.processSpeech (reaches m₀.thresholdEnd prob)).1 ∧
      Counts m₀ ((m.processSpeech (reaches m₀.thresholdEnd prob)).1.stretch ps prob)
        (m.processSpeech (reaches m₀.thresholdEnd prob)).2 := by
  obtain ⟨xs, hring⟩ := h.ring
  obtain ⟨hcount, hnever⟩ := h.speech hs
  have hbelow : m.silenceFrameCount.toNat < m₀.minSilenceFrames.toNat := by
    rw [hcount]
    exact Nat.lt_of_not_le fun hle => hnever ps (List.prefix_refl ps) (ends_iff.mpr hle)
  have hstay : ∀ (c speeches : UInt32),
      c.toNat = streak (fun p => !reaches m₀.thresholdEnd p) (ps ++ [prob]) →
      c.toNat < m₀.minSilenceFrames.toNat →
      m₀.Decides ps prob .speech (.speechContinues : VadDecision S) ∧
      Counts m₀ (ps ++ [prob]) { m with silenceFrameCount := c, speechFrameCount := speeches } := by
    intro c speeches hc hlt
    have hnot : ¬ Ends m₀.minSilenceFrames.toNat m₀.thresholdEnd (ps ++ [prob]) := by
      rw [ends_iff, ← hc]
      exact Nat.not_le_of_lt hlt
    refine ⟨fun hf => hnot hf.1, ?_⟩
    exact h.speaking ⟨rfl, rfl, rfl, rfl⟩ hring hs hc (never_snoc hnever hnot)
  unfold VadStateMachine.processSpeech
  cases hr : reaches m₀.thresholdEnd prob with
  | true =>
      exact hstay 0 (m.speechFrameCount + 1) (by rw [streak_snoc, hr]; rfl)
        (Nat.lt_of_le_of_lt (Nat.zero_le _) hbelow)
  | false =>
      have hstreak : (m.silenceFrameCount + 1).toNat =
          streak (fun p => !reaches m₀.thresholdEnd p) (ps ++ [prob]) := by
        rw [toNat_succ hbelow, hcount, streak_snoc, hr]
        rfl
      simp only [Bool.false_eq_true, if_false]
      cases Decidable.em (m.minSilenceFrames ≤ m.silenceFrameCount + 1) with
      | inr hlt =>
          rw [if_neg hlt]
          rw [h.minSilenceFrames] at hlt
          exact hstay (m.silenceFrameCount + 1) 0 hstreak
            (Nat.lt_of_not_le fun hle => hlt (UInt32.le_iff_toNat_le.mpr hle))
      | inl hle =>
          rw [if_pos hle]
          rw [h.minSilenceFrames] at hle
          have hends : Ends m₀.minSilenceFrames.toNat m₀.thresholdEnd (ps ++ [prob]) := by
            rw [ends_iff, ← hstreak]
            exact UInt32.le_iff_toNat_le.mp hle
          refine ⟨⟨hends, hnever⟩, ?_⟩
          exact h.silent ⟨rfl, rfl, rfl, rfl⟩ hring rfl rfl (not_onset_nil hspeech)

/-- A machine just created, or just reset, has counted nothing. -/
theorem Counts.initial [Zero S] {m : VadStateMachine S P} (hm : m.Initial)
    (hC : 0 < m.ringBuffer.capacity) (hspeech : 1 ≤ m.minSpeechFrames) : Counts m [] m := by
  obtain ⟨hs, hring⟩ := hm.silent hC
  refine ⟨⟨[], hring⟩, rfl, rfl, rfl, rfl, ?_, ?_⟩
  · intro _
    refine ⟨?_, not_onset_nil hspeech⟩
    cases hm with
    | new => rfl
    | reset m => rfl
  · intro hsp
    rw [hs] at hsp
    cases hsp

theorem Counts.process (h : Counts m₀ ps m) (hspeech : 1 ≤ m₀.minSpeechFrames)
    (hsilence : 1 ≤ m₀.minSilenceFrames) (prob : P) (frame : List S) :
    ∃ d m', m.process prob frame = some (d, m') ∧ m₀.Decides ps prob m.state d ∧
      Counts m₀ (d.stretch ps prob) m' := by
  cases hs : m.state with
  | silence =>
      simp only [VadStateMachine.process, hs, h.thresholdStart]
      exact h.processSilence hs hsilence prob frame
  | speech =>
      simp only [VadStateMachine.process, hs, h.thresholdEnd]
      obtain ⟨hdec, hcounts⟩ := h.processSpeech hs hspeech prob
      exact ⟨_, _, rfl, hdec, hcounts⟩

/-- The decisions of a run with the probabilities they were made on. -/
def decided (inputs : List (P × List S)) (fs : List (VadDecision S × List S)) :
    List (VadDecision S × P) :=
  (fs.map Prod.fst).zip (inputs.map Prod.fst)

omit [LE P] [DecidableLE P] in
theorem stretch_decided_snoc {inputs : List (P × List S)} {fs : List (VadDecision S × List S)}
    (hlen : fs.length = inputs.length) (prob : P) (d : VadDecision S) (frame : List S) :
    stretch (decided (inputs ++ [(prob, frame)]) (fs ++ [(d, frame)])) =
      d.stretch (stretch (decided inputs fs)) prob := by
  rw [decided, List.map_append, List.map_append, List.zip_append (by simpa using hlen), stretch,
    List.foldl_append]
  rfl

/-- Speech starts at the first frame of the stretch since the last boundary at which some window has
`minSpeechFrames` more frames at the start threshold than below it, and ends at the first that
completes `minSilenceFrames` in a row below the end threshold; every other frame is silence, or goes
on with the speech.  From a machine just created or reset, on every list of frames: the decision on
the frame after it. -/
theorem decides_boundaries [Zero S] (m : VadStateMachine S P) (hm : m.Initial)
    (hC : 0 < m.ringBuffer.capacity) (hspeech : 1 ≤ m.minSpeechFrames)
    (hsilence : 1 ≤ m.minSilenceFrames) (inputs : List (P × List S)) (prob : P) (frame : List S) :
    ∃ m' fs m'' d, Mealy.run VadStateMachine.frame m inputs = some (m', fs) ∧
      Mealy.run VadStateMachine.frame m (inputs ++ [(prob, frame)]) =
        some (m'', fs ++ [(d, frame)]) ∧
      m.Decides (stretch (decided inputs fs)) prob (stateAfter .silence fs) d := by
  obtain ⟨m', fs, hrun, -, hstate, hcounts⟩ := Mealy.run_total
    (P := fun (is : List (P × List S)) (m' : VadStateMachine S P)
        (fs : List (VadDecision S × List S)) =>
      fs.length = is.length ∧ stateAfter .silence fs = m'.state ∧
        Counts m (stretch (decided is fs)) m')
    (by
      rintro is m₁ fs ⟨prob, frame⟩ ⟨hlen, hstate, hcounts⟩
      obtain ⟨d, m₂, hp, -, hcounts'⟩ := hcounts.process hspeech hsilence prob frame
      have hstep : VadStateMachine.frame m₁ (prob, frame) = some (m₂, [(d, frame)]) := by
        simp only [VadStateMachine.frame, hp]
      refine ⟨m₂, [(d, frame)], hstep, ?_, ?_, ?_⟩
      · rw [List.length_append, List.length_append, hlen]
        rfl
      · rw [stateAfter_append]
        exact (process_decides hp).2
      · rw [stretch_decided_snoc hlen]
        exact hcounts')
    ⟨rfl, (hm.silent hC).1.symm, Counts.initial hm hC hspeech⟩ inputs
  obtain ⟨d, m'', hp, hdec, -⟩ := hcounts.process hspeech hsilence prob frame
  refine ⟨m', fs, m'', d, hrun, ?_, ?_⟩
  · exact Mealy.run_append hrun (Mealy.run_singleton (by simp only [VadStateMachine.frame, hp]))
  · rw [hstate]
    exact hdec

/-- Two frames more than below are needed, and two below in a row: the leak of the third frame is
made up for by the fifth, and the pause of one frame does not end the speech. -/
theorem decides_boundaries_leak :
    let m : VadStateMachine ℕ ℕ := .new 5 3 64 64 1
    let inputs : List (ℕ × List ℕ) :=
      [(0, [1]), (9, [2]), (4, [3]), (9, [4]), (9, [5]), (2, [6]), (3, [7]), (2, [8])]
    ∃ m' fs m'' d, Mealy.run VadStateMachine.frame m inputs = some (m', fs) ∧
      Mealy.run VadStateMachine.frame m (inputs ++ [(1, [9])]) = some (m'', fs ++ [(d, [9])]) ∧
      m.Decides (stretch (decided inputs fs)) 1 (stateAfter .silence fs) d :=
  decides_boundaries _ (.new 5 3 64 64 1) (by decide) (by decide) (by decide) _ 1 [9]

/-- The decisions of that run. -/
example :
    (Mealy.run VadStateMachine.frame (.new 5 3 64 64 1 : VadStateMachine ℕ ℕ)
      [(0, [1]), (9, [2]), (4, [3]), (9, [4]), (9, [5]), (2, [6]), (3, [7]), (2, [8]), (1, [9])]).map
        (fun r => r.2.map Prod.fst) =
      some [.silence, .silence, .silence, .silence, .speechStarted [1, 2, 3, 4], .speechContinues,
        .speechContinues, .speechContinues, .speechEnded] := by
  decide +kernel

end VadStateMachine

end Larmindon
