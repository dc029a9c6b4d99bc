/-
# `Nemotron.Replays` — only silent chunks are replayed

When too many chunks in a row gave no text, the decoder is reset in the middle
of speech and fed the chunks kept in the replay buffer once more.  A chunk that
gave text before must not be among them, or its text comes out twice.

Nothing in the buffer says what its chunks gave.  What does is a relation
between the buffer, its capacity and `consecutive_empty` (`Kept`): the chunks
kept were all live since the decoder was last reset, and they are

    old ++ new      the new ones gave no text, or failed; and unless there are
                    no old ones, `consecutive_empty ≤ |new|`

A chunk that gives text makes all of them old, but sets the counter to zero.
One that gives none, or fails, adds to the new ones.  The capacity only takes
from the front, whether it is a push that reaches it or a change of settings
that lowers it.  So when the counter has reached the threshold, which is what
the capacity is at most, there is no room for an old one.
-/
import Larmindon.Nemotron.Moves

namespace Larmindon.Nemotron

variable {S σ : Type}

/-! ## What the events say -/

/-- The live chunks since the last reset, each with what its decoding gave. -/
def liveSince (evs : List (Event S)) : List (List S × Except String String) :=
  evs.foldl (fun ks e => match e with
    | .transcribe .live chunk result => ks ++ [(chunk, result)]
    | .reset _ => []
    | .transcribe .replay _ _ | .update _ => ks) []

/-- The decoding gave no text, or failed. -/
def Silent (result : Except String String) : Prop := result = .ok "" ∨ ∃ e, result = .error e

/-- Each of the chunks was live since the last reset, in this order, and gave no text. -/
def AllSilent (evs : List (Event S)) (chunks : List (List S)) : Prop :=
  ∃ ks : List (List S × Except String String), ks.Sublist (liveSince evs) ∧
    ks.map Prod.fst = chunks ∧ ∀ k ∈ ks, Silent k.2

/-- At each mid-speech reset the chunks kept had given no text. -/
def ReplaysSilent (evs : List (Event S)) : Prop :=
  ∀ before chunks after, evs = before ++ .reset (.midSpeech chunks) :: after → AllSilent before chunks

/-- The chunks decoded once more. -/
def replayed (evs : List (Event S)) : List (List S) :=
  evs.flatMap fun
    | .transcribe .replay chunk _ => [chunk]
    | .transcribe .live _ _ | .reset _ | .update _ => []

/-- The chunks kept at the mid-speech resets. -/
def snapshots (evs : List (Event S)) : List (List S) :=
  evs.flatMap fun
    | .reset (.midSpeech chunks) => chunks
    | .transcribe _ _ _ | .reset .session | .reset .punctuation | .reset .speechEnd | .update _ => []

@[simp] theorem replayed_append (evs fvs : List (Event S)) :
    replayed (evs ++ fvs) = replayed evs ++ replayed fvs :=
  List.flatMap_append

@[simp] theorem snapshots_append (evs fvs : List (Event S)) :
    snapshots (evs ++ fvs) = snapshots evs ++ snapshots fvs :=
  List.flatMap_append

theorem liveSince_snoc (evs : List (Event S)) (e : Event S) :
    liveSince (evs ++ [e]) = match e with
      | .transcribe .live chunk result => liveSince evs ++ [(chunk, result)]
      | .reset _ => []
      | .transcribe .replay _ _ | .update _ => liveSince evs := by
  rw [liveSince, List.foldl_append]
  rfl

/-- One event more: only a mid-speech reset is a new case. -/
theorem ReplaysSilent.snoc {evs : List (Event S)} (h : ReplaysSilent evs) {e : Event S}
    (he : ∀ chunks, e = .reset (.midSpeech chunks) → AllSilent evs chunks) :
    ReplaysSilent (evs ++ [e]) := by
  intro before chunks after heq
  cases List.eq_nil_or_concat' after with
  | inl hnil =>
      subst hnil
      obtain ⟨rfl, hlast⟩ := List.append_inj' heq rfl
      exact he chunks (List.singleton_inj.mp hlast)
  | inr hsnoc =>
      obtain ⟨after, last, rfl⟩ := hsnoc
      rw [← List.cons_append, ← List.append_assoc] at heq
      obtain ⟨rfl, -⟩ := List.append_inj' heq rfl
      exact h before chunks after rfl

/-! ## The buffer -/

theorem popFront_eq_drop (n : ℕ) (chunks : List (List S)) :
    ReplayBuffer.popFront n chunks = chunks.drop (chunks.length - n) := by
  induction chunks with
  | nil => rw [ReplayBuffer.popFront, List.drop_nil]
  | cons c cs ih =>
      rw [ReplayBuffer.popFront]
      split
      · next h =>
          rw [ih, List.length_cons, show cs.length + 1 - n = cs.length - n + 1 by
            rw [List.length_cons] at h; omega, List.drop_succ_cons]
      · next h => rw [Nat.sub_eq_zero_of_le (Nat.le_of_not_lt h), List.drop_zero]

/-- What the chunks kept gave, when `evs` has happened and the counter stands at `empty`. -/
def Sorted (evs : List (Event S)) (chunks : List (List S)) (empty : ℕ) : Prop :=
  ∃ old new : List (List S × Except String String), (old ++ new).Sublist (liveSince evs) ∧
    (old ++ new).map Prod.fst = chunks ∧ (∀ k ∈ new, Silent k.2) ∧
    (old = [] ∨ empty ≤ new.length)

/-- The relation between the buffer and the counter. -/
structure Kept (evs : List (Event S)) (rb : ReplayBuffer S) (empty : ℕ) : Prop where
  sorted : Sorted evs rb.chunks empty
  fits : rb.chunks.length ≤ rb.maxChunks

theorem Sorted.nil (evs : List (Event S)) (empty : ℕ) : Sorted evs [] empty :=
  ⟨[], [], List.nil_sublist _, rfl, by simp, Or.inl rfl⟩

/-- Chunks that leave at the front are the oldest. -/
theorem Sorted.drop {evs : List (Event S)} {chunks : List (List S)} {empty : ℕ}
    (h : Sorted evs chunks empty) (k : ℕ) : Sorted evs (chunks.drop k) empty := by
  obtain ⟨old, new, hsub, hmap, hnew, hold⟩ := h
  refine ⟨old.drop k, new.drop (k - old.length), ?_, ?_, ?_, ?_⟩
  · rw [← List.drop_append]
    exact (List.drop_sublist k _).trans hsub
  · rw [← List.drop_append, List.map_drop, hmap]
  · intro e he
    exact hnew e (List.mem_of_mem_drop he)
  · cases Nat.lt_or_ge k old.length with
    | inr hge => exact Or.inl (List.drop_eq_nil_of_le hge)
    | inl hlt =>
        rw [Nat.sub_eq_zero_of_le (Nat.le_of_lt hlt), List.drop_zero]
        refine Or.inr (hold.resolve_left ?_)
        rintro rfl
        exact Nat.not_lt_zero k hlt

theorem Sorted.mono {evs : List (Event S)} {chunks : List (List S)} {n m : ℕ}
    (h : Sorted evs chunks n) (hle : m ≤ n) : Sorted evs chunks m := by
  obtain ⟨old, new, hsub, hmap, hnew, hold⟩ := h
  exact ⟨old, new, hsub, hmap, hnew, hold.imp_right (Nat.le_trans hle)⟩

/-- More is live, and what is kept stays. -/
theorem Sorted.live {evs fvs : List (Event S)} {chunks : List (List S)} {empty : ℕ}
    (h : Sorted evs chunks empty) (hsub : (liveSince evs).Sublist (liveSince fvs)) :
    Sorted fvs chunks empty := by
  obtain ⟨old, new, hs, hrest⟩ := h
  exact ⟨old, new, hs.trans hsub, hrest⟩

theorem Kept.clear (evs : List (Event S)) (rb : ReplayBuffer S) (empty : ℕ) :
    Kept evs rb.clear empty :=
  ⟨.nil evs empty, Nat.zero_le _⟩

/-- What is over the capacity leaves at the front. -/
theorem Sorted.truncate {evs : List (Event S)} {rb : ReplayBuffer S} {empty : ℕ}
    (h : Sorted evs rb.chunks empty) : Kept evs rb.truncateToCapacity empty := by
  have hchunks : rb.truncateToCapacity.chunks = rb.chunks.drop (rb.chunks.length - rb.maxChunks) :=
    popFront_eq_drop rb.maxChunks rb.chunks
  refine ⟨?_, ?_⟩
  · rw [hchunks]
    exact h.drop _
  · show rb.truncateToCapacity.chunks.length ≤ rb.maxChunks
    rw [hchunks, List.length_drop]
    omega

theorem Kept.updateCapacity {evs : List (Event S)} {rb : ReplayBuffer S} {empty : ℕ}
    (h : Kept evs rb empty) (maxChunks : ℕ) : Kept evs (rb.updateCapacity maxChunks) empty := by
  have hs : Sorted evs (ReplayBuffer.mk rb.chunks maxChunks).chunks empty := h.sorted
  exact hs.truncate

/-- A push: sorted with the chunk behind, the buffer stays sorted within its capacity. -/
theorem Kept.push {evs fvs : List (Event S)} {rb : ReplayBuffer S} {chunk : List S} {n m : ℕ}
    (h : Kept evs rb n) (hs : Sorted fvs (rb.chunks ++ [chunk]) m) : Kept fvs (rb.push chunk) m := by
  rw [ReplayBuffer.push]
  split
  · next h0 =>
      have hnil : rb.chunks = [] := List.eq_nil_of_length_eq_zero (by have := h.fits; omega)
      refine ⟨?_, h.fits⟩
      rw [hnil]
      exact .nil fvs m
  · have hs' : Sorted fvs (ReplayBuffer.mk (rb.chunks ++ [chunk]) rb.maxChunks).chunks m := hs
    exact hs'.truncate

@[simp] theorem push_maxChunks (rb : ReplayBuffer S) (chunk : List S) :
    (rb.push chunk).maxChunks = rb.maxChunks := by
  rw [ReplayBuffer.push]
  split <;> rfl

section live

variable {evs : List (Event S)} {rb : ReplayBuffer S} {chunk : List S} {empty : ℕ}

/-- A chunk that gave no text, or failed, is one more new one. -/
theorem Sorted.silent {chunks : List (List S)} {result : Except String String}
    (h : Sorted evs chunks empty) (hr : Silent result) :
    Sorted (evs ++ [.transcribe .live chunk result]) (chunks ++ [chunk]) (empty + 1) := by
  obtain ⟨old, new, hsub, hmap, hnew, hold⟩ := h
  refine ⟨old, new ++ [(chunk, result)], ?_, ?_, ?_, ?_⟩
  · rw [liveSince_snoc, ← List.append_assoc]
    exact hsub.append (List.Sublist.refl _)
  · rw [← List.append_assoc, List.map_append, hmap]
    rfl
  · intro k hk
    cases List.mem_append.mp hk with
    | inl hk => exact hnew k hk
    | inr hk =>
        obtain rfl := List.mem_singleton.mp hk
        exact hr
  · rw [List.length_append, List.length_singleton]
    exact hold.imp_right Nat.succ_le_succ

/-- A chunk that gave text makes all of them old ones. -/
theorem Sorted.text {chunks : List (List S)} {result : Except String String}
    (h : Sorted evs chunks empty) :
    Sorted (evs ++ [.transcribe .live chunk result]) (chunks ++ [chunk]) 0 := by
  obtain ⟨old, new, hsub, hmap, -, -⟩ := h
  refine ⟨old ++ new ++ [(chunk, result)], [], ?_, ?_, by simp, Or.inr (Nat.zero_le _)⟩
  · rw [liveSince_snoc, List.append_nil]
    exact hsub.append (List.Sublist.refl _)
  · rw [List.append_nil, List.map_append, hmap]
    rfl

/-- A chunk that is not kept. -/
theorem Sorted.passed {chunks : List (List S)} {result : Except String String}
    (h : Sorted evs chunks empty) :
    Sorted (evs ++ [.transcribe .live chunk result]) chunks empty := by
  refine h.live ?_
  rw [liveSince_snoc]
  exact List.sublist_append_left _ _

/-- With the counter at the capacity or above, there is no room for an old one. -/
theorem Kept.allSilent (h : Kept evs rb empty) (hfull : rb.maxChunks ≤ empty) :
    AllSilent evs rb.chunks := by
  obtain ⟨⟨old, new, hsub, hmap, hnew, hold⟩, hfits⟩ := h
  have hlen : rb.chunks.length = old.length + new.length := by
    rw [← hmap, List.length_map, List.length_append]
  have hnil : old = [] := by
    cases hold with
    | inl hnil => exact hnil
    | inr hle => exact List.eq_nil_of_length_eq_zero (by omega)
  subst hnil
  exact ⟨new, hsub, hmap, hnew⟩

end live

/-! ## The invariant -/

/-- After `evs`, with the buffer, the counter and the threshold as they stand, and `todo` of the last
snapshot still to be replayed. -/
structure Held (evs : List (Event S)) (todo : List (List S)) (threshold : ℕ) (rb : ReplayBuffer S)
    (empty : ℕ) : Prop where
  kept : Kept evs rb empty
  capacity : rb.maxChunks ≤ threshold
  silent : ReplaysSilent evs
  again : replayed evs ++ todo = snapshots evs

section held

variable {evs : List (Event S)} {todo : List (List S)} {threshold empty : ℕ} {rb : ReplayBuffer S}

theorem Held.reset (h : Held evs [] threshold rb empty) {cause : ResetCause S}
    (hc : ∀ chunks, cause = .midSpeech chunks → AllSilent evs chunks) :
    Held (evs ++ [.reset cause]) (snapshots [.reset cause]) threshold rb.clear 0 where
  kept := .clear _ rb 0
  capacity := h.capacity
  silent := by
    refine h.silent.snoc ?_
    intro chunks heq
    exact hc chunks (Event.reset.inj heq)
  again := by
    rw [replayed_append, snapshots_append, ← h.again, List.append_nil]
    exact congrArg (· ++ _) (List.append_nil _)

theorem Held.update (h : Held evs todo threshold rb empty) (u : TranscriptUpdate) :
    Held (evs ++ [.update u]) todo threshold rb empty where
  kept := ⟨h.kept.sorted.live (by rw [liveSince_snoc]), h.kept.fits⟩
  capacity := h.capacity
  silent := h.silent.snoc (by rintro chunks ⟨⟩)
  again := by simpa [replayed, snapshots] using h.again

theorem Held.transcribeReplay {chunk : List S} (h : Held evs (chunk :: todo) threshold rb empty)
    (result : Except String String) :
    Held (evs ++ [.transcribe .replay chunk result]) todo threshold rb empty where
  kept := ⟨h.kept.sorted.live (by rw [liveSince_snoc]), h.kept.fits⟩
  capacity := h.capacity
  silent := h.silent.snoc (by rintro chunks ⟨⟩)
  again := by simpa [replayed, snapshots] using h.again

/-- A live chunk leaves a buffer and a counter that are related as before. -/
theorem Held.transcribeLive {rb' : ReplayBuffer S} {empty' : ℕ} {chunk : List S}
    {result : Except String String} (h : Held evs todo threshold rb empty)
    (hk : Kept (evs ++ [.transcribe .live chunk result]) rb' empty')
    (hc : rb'.maxChunks = rb.maxChunks) :
    Held (evs ++ [.transcribe .live chunk result]) todo threshold rb' empty' where
  kept := hk
  capacity := by rw [hc]; exact h.capacity
  silent := h.silent.snoc (by rintro chunks ⟨⟩)
  again := by simpa [replayed, snapshots] using h.again

end held

/-! ## One chunk -/

namespace Decoding

/-- The invariant, read off what the loop works on. -/
def Keeps (evs : List (Event S)) (todo : List (List S)) (threshold : ℕ) (d : Decoding S σ) : Prop :=
  Held evs todo threshold d.replayBuffer d.consecutiveEmpty

variable {M : Model S σ} {evs : List (Event S)} {d : Decoding S σ} {t : Tuning}

theorem Keeps.reset {threshold : ℕ} (h : d.Keeps evs [] threshold) {cause : ResetCause S}
    (hc : ∀ chunks, cause = .midSpeech chunks → AllSilent evs chunks) :
    (d.reset M).Keeps (evs ++ [.reset cause]) (snapshots [.reset cause]) threshold :=
  Held.reset h hc

theorem Keeps.emit {todo : List (List S)} {threshold : ℕ} (h : d.Keeps evs todo threshold)
    (text : String) : (d.emit text).1.Keeps (evs ++ (d.emit text).2) todo threshold := by
  rw [Decoding.emit]
  split
  · rw [List.append_nil]
    exact h
  · exact Held.update h _

theorem Keeps.replayChunk {todo : List (List S)} {threshold : ℕ} {chunk : List S}
    (h : d.Keeps evs (chunk :: todo) threshold) :
    (d.replayChunk M chunk).1.Keeps (evs ++ (d.replayChunk M chunk).2) todo threshold := by
  rw [Decoding.replayChunk]
  rcases M.transcribeChunk d.model chunk with ⟨result, model⟩
  cases result with
  | error err => exact Held.transcribeReplay h (.error err)
  | ok text =>
      have ht : Keeps (evs ++ [.transcribe .replay chunk (.ok text)]) todo threshold
          { d with
            chunksSinceDecoderReset := d.chunksSinceDecoderReset + 1
            model, chunkNum := d.chunkNum + 1 } := Held.transcribeReplay h (.ok text)
      have he := ht.emit text
      rwa [List.append_assoc] at he

/-- The replay decodes the chunks of the snapshot, each once. -/
theorem Keeps.replay {threshold : ℕ} {chunks : List (List S)} (h : d.Keeps evs chunks threshold) :
    (d.replay M chunks).1.Keeps (evs ++ (d.replay M chunks).2) [] threshold := by
  induction chunks generalizing d evs with
  | nil =>
      rw [Decoding.replay, List.append_nil]
      exact h
  | cons chunk chunks ih =>
      have hr := ih (h.replayChunk (M := M))
      rw [List.append_assoc] at hr
      exact hr

/-- Where the mid-speech reset fires, the counter has reached the threshold. -/
theorem Keeps.heuristic (h : d.Keeps evs [] t.emptyResetThreshold) (vadIsSpeech : Bool) :
    (d.heuristic M t vadIsSpeech).1.Keeps (evs ++ (d.heuristic M t vadIsSpeech).2) []
      t.emptyResetThreshold := by
  rw [Decoding.heuristic]
  split
  · next hfires =>
      have hsilent : AllSilent evs d.replayBuffer.chunks :=
        h.kept.allSilent (h.capacity.trans hfires.1)
      have hreset : (d.reset M).Keeps (evs ++ [.reset (.midSpeech d.replayBuffer.chunks)])
          (d.replayBuffer.chunks ++ []) t.emptyResetThreshold := by
        refine h.reset ?_
        rintro chunks ⟨⟩
        exact hsilent
      rw [List.append_nil] at hreset
      have hr := hreset.replay (M := M)
      rw [List.append_assoc] at hr
      exact hr
  · rw [List.append_nil]
    exact h

theorem Keeps.punctuationReset {threshold : ℕ} (h : d.Keeps evs [] threshold) (text : String) :
    (d.punctuationReset M t text).1.Keeps (evs ++ (d.punctuationReset M t text).2) [] threshold := by
  rw [Decoding.punctuationReset]
  split
  · exact h.reset (by rintro chunks ⟨⟩)
  · rw [List.append_nil]
    exact h

/-- Whatever a live chunk gives, the invariant is kept. -/
theorem Keeps.liveChunk (h : d.Keeps evs [] t.emptyResetThreshold) (vadIsSpeech : Bool)
    (chunk : List S) :
    (d.liveChunk M t vadIsSpeech chunk).1.Keeps (evs ++ (d.liveChunk M t vadIsSpeech chunk).2) []
      t.emptyResetThreshold := by
  rw [Decoding.liveChunk]
  rcases M.transcribeChunk d.model chunk with ⟨result, model⟩
  cases result with
  | error err =>
      -- pushed, but not counted
      refine Held.transcribeLive h ?_ (by cases vadIsSpeech <;> simp)
      cases vadIsSpeech with
      | false => exact ⟨h.kept.sorted.passed, h.kept.fits⟩
      | true =>
          exact h.kept.push ((h.kept.sorted.silent (Or.inr ⟨err, rfl⟩)).mono (Nat.le_succ _))
  | ok text =>
      have hlive : Keeps (evs ++ [.transcribe .live chunk (.ok text)]) [] t.emptyResetThreshold
          { d with
            replayBuffer := if vadIsSpeech then d.replayBuffer.push chunk else d.replayBuffer
            chunksSinceDecoderReset := d.chunksSinceDecoderReset + 1
            model
            chunkNum := d.chunkNum + 1
            consecutiveEmpty :=
              if text.isEmpty && vadIsSpeech then d.consecutiveEmpty + 1 else 0 } := by
        refine Held.transcribeLive h ?_ (by cases vadIsSpeech <;> simp)
        cases vadIsSpeech with
        | false =>
            -- the counter is cleared, the buffer kept
            rw [Bool.and_false]
            exact ⟨h.kept.sorted.passed.mono (Nat.zero_le _), h.kept.fits⟩
        | true =>
            cases hempty : text.isEmpty with
            | false => exact h.kept.push h.kept.sorted.text
            | true =>
                have htext : text = "" := String.isEmpty_iff.mp hempty
                exact h.kept.push (h.kept.sorted.silent (Or.inl (congrArg _ htext)))
      have hr := ((hlive.punctuationReset (M := M) (t := t) text).emit text).heuristic (M := M)
        vadIsSpeech
      simp only [List.append_assoc] at hr
      simp only [transcribed, List.append_assoc]
      exact hr

theorem Keeps.speechEndResets {threshold : ℕ} (h : d.Keeps evs [] threshold) (asrConsumed : ℕ)
    (pending : List ℕ) :
    (d.speechEndResets M asrConsumed pending).1.Keeps
      (evs ++ (d.speechEndResets M asrConsumed pending).2.1) [] threshold := by
  induction pending generalizing d evs with
  | nil =>
      rw [Decoding.speechEndResets, List.append_nil]
      exact h
  | cons resetAfterSamples pending ih =>
      rw [Decoding.speechEndResets]
      split
      · have hreset : (d.reset M).Keeps (evs ++ [.reset .speechEnd]) [] threshold :=
          h.reset (by rintro chunks ⟨⟩)
        have hr := ih hreset
        rw [List.append_assoc] at hr
        exact hr
      · rw [List.append_nil]
        exact h

end Decoding

/-! ## The loop -/

theorem keeps_chunkTurns {M : Model S σ} {t : Tuning} (vadIsSpeech : Bool) (asrBuffer : List S)
    (n : ℕ) {evs : List (Event S)} {d : Decoding S σ} (h : d.Keeps evs [] t.emptyResetThreshold)
    (asrConsumed : ℕ) (pending : List ℕ) :
    (chunkTurns M t vadIsSpeech asrBuffer n asrConsumed pending d).2.2.1.Keeps
      (evs ++ (chunkTurns M t vadIsSpeech asrBuffer n asrConsumed pending d).2.2.2) []
      t.emptyResetThreshold := by
  induction n generalizing asrConsumed pending d evs with
  | zero =>
      rw [chunkTurns, List.append_nil]
      exact h
  | succ n ih =>
      rw [chunkTurns]
      split
      · dsimp only
        rw [← List.append_assoc]
        refine ih ?_ _ _
        rw [← List.append_assoc]
        exact (h.liveChunk vadIsSpeech _).speechEndResets _ pending
      · rw [List.append_nil]
        exact h

/-! ## The backend -/

/-- The invariant of a backend between its calls. -/
def NemotronBackend.Keeps (evs : List (Event S)) (b : NemotronBackend S σ) : Prop :=
  Held evs [] b.emptyResetThreshold b.replayBuffer b.consecutiveEmpty

namespace NemotronBackend

variable {M : Model S σ} {evs : List (Event S)} {b : NemotronBackend S σ}

theorem Keeps.new : (NemotronBackend.new : NemotronBackend S σ).Keeps [] where
  kept := ⟨.nil [] 0, Nat.le_refl 0⟩
  capacity := Nat.zero_le 1
  silent := by
    intro before chunks after heq
    cases before <;> cases heq
  again := rfl

/-- A session begins with an empty buffer, of the capacity its settings give. -/
theorem Keeps.started (h : b.Keeps evs) (settings : Settings) (model : σ) :
    (b.started settings model).Keeps evs where
  kept := ⟨.nil evs 0, Nat.zero_le _⟩
  capacity := Nat.le_refl _
  silent := h.silent
  again := h.again

/-- A model that is reset on the way is reset before anything is kept. -/
theorem Keeps.began (h : b.Keeps evs) (settings : Settings) (model : σ) {new : List (Event S)}
    (hnew : new = [.reset .session] ∨ b.model = none ∧ new = []) :
    (b.started settings model).Keeps (evs ++ new) := by
  rcases hnew with rfl | ⟨-, rfl⟩
  · have hr : Held (evs ++ [.reset .session]) [] b.emptyResetThreshold b.replayBuffer.clear 0 :=
      Held.reset h (by rintro chunks ⟨⟩)
    exact ⟨⟨.nil _ 0, Nat.zero_le _⟩, Nat.le_refl _, hr.silent, hr.again⟩
  · rw [List.append_nil]
    exact h.started settings model

theorem Keeps.markSpeechStart (h : b.Keeps evs) : b.markSpeechStart.Keeps evs where
  kept := .clear evs b.replayBuffer 0
  capacity := h.capacity
  silent := h.silent
  again := h.again

/-- A capacity raised or lowered is the new threshold again. -/
theorem Keeps.updateSettings (h : b.Keeps evs) (settings : Settings) :
    (b.updateSettings settings).Keeps evs where
  kept := h.kept.updateCapacity settings.emptyResetThreshold
  capacity := Nat.le_refl _
  silent := h.silent
  again := h.again

/-- The first chunks of a `process` call. -/
theorem Keeps.turns (h : b.Keeps evs) (vadState : VadState) (ids : SegmentIds) (n : ℕ) :
    ReplaysSilent (evs ++ b.turns M vadState ids n) ∧
      replayed (evs ++ b.turns M vadState ids n) = snapshots (evs ++ b.turns M vadState ids n) := by
  rw [NemotronBackend.turns]
  split
  · rw [List.append_nil, ← h.again, List.append_nil]
    exact ⟨h.silent, rfl⟩
  · next model _ =>
      have hd : (b.decoding model ids).Keeps evs [] b.tuning.emptyResetThreshold := h
      have hr := keeps_chunkTurns (M := M) (vadState = .speech) b.asrBuffer n hd 0
        b.pendingSpeechEndResets
      refine ⟨hr.silent, ?_⟩
      rw [← hr.again, List.append_nil]

/-- Every call keeps the invariant. -/
theorem Keeps.step [Zero S] (h : b.Keeps evs) {ids : SegmentIds} {op : Op S σ}
    {b' : NemotronBackend S σ} {new : List (Event S)} (hm : Moves M b ids op b' new) :
    b'.Keeps (evs ++ new) := by
  have hstays : b.Keeps (evs ++ []) := by
    rw [List.append_nil]
    exact h
  cases hm with
  | began model hnew => exact h.began _ model hnew
  | refused | pushAudio | markSpeechEnd => exact hstays
  | markSpeechStart => exact hstays.markSpeechStart
  | updateSettings settings => exact hstays.updateSettings settings
  | @processed vadState model asrConsumed pending d new hmodel hturns =>
      have hd : (b.decoding model ids).Keeps evs [] b.tuning.emptyResetThreshold := h
      have hr := keeps_chunkTurns (M := M) (vadState = .speech) b.asrBuffer
        (b.asrBuffer.length + 1) hd 0 b.pendingSpeechEndResets
      rw [hturns] at hr
      exact hr

end NemotronBackend

/-- Only silent chunks are replayed.  After any calls on a backend, whatever the settings, their
changes and the model, and after any number of chunks of a further `process` call: at each
mid-speech reset the chunks kept had been live since the decoder was last reset, and their decoding
had given no text or failed; and the chunks decoded once more are those, each once. -/
theorem replays_silent [Zero S] {M : Model S σ} {ids₀ ids : SegmentIds} {ops : List (Op S σ)}
    {b : NemotronBackend S σ} {evs : List (Event S)}
    (hr : Mealy.run (opStep M) (NemotronBackend.new, ids₀) ops = some ((b, ids), evs))
    (vadState : VadState) (n : ℕ) :
    ReplaysSilent (evs ++ b.turns M vadState ids n) ∧
      replayed (evs ++ b.turns M vadState ids n) = snapshots (evs ++ b.turns M vadState ids n) := by
  have hkeeps : b.Keeps evs := by
    refine Mealy.run_sound (P := fun _ s es => s.1.Keeps es) ?_ .new hr
    rintro is ⟨b₁, ids₁⟩ evs₁ op s' new h₁ hs
    exact h₁.step (NemotronBackend.moves_of_step hs)
  exact hkeeps.turns vadState ids n

/-- A chunk with a text, one without, then the threshold is lowered from three to two and a chunk
without text comes: the two are replayed, and the first, for which there is no room any more, is
not. -/
theorem replays_silent_lowered :
    let M : Model ℕ ℕ := ⟨fun m _ => (.ok (if m = 0 then "a" else ""), m + 1), fun _ => 1⟩
    let chunk (k : ℕ) : List ℕ := List.replicate 16 k
    ∃ b ids evs, Mealy.run (opStep M) (NemotronBackend.new, 0)
        [.beginSession (.ok 0) ⟨1, false, 3⟩, .markSpeechStart, .pushAudio (chunk 1 ++ chunk 2),
          .process .speech, .updateSettings ⟨1, false, 2⟩, .pushAudio (chunk 3)]
          = some ((b, ids), evs) ∧
      replayed (evs ++ b.turns M .speech ids 1) = [chunk 2, chunk 3] ∧
      ReplaysSilent (evs ++ b.turns M .speech ids 1) := by
  intro M chunk
  have hreplayed : (Mealy.run (opStep M) (NemotronBackend.new, 0)
      [.beginSession (.ok 0) ⟨1, false, 3⟩, .markSpeechStart, .pushAudio (chunk 1 ++ chunk 2),
        .process .speech, .updateSettings ⟨1, false, 2⟩, .pushAudio (chunk 3)]).map
        (fun r => replayed (r.2 ++ r.1.1.turns M .speech r.1.2 1)) = some [chunk 2, chunk 3] := by
    decide +kernel
  obtain ⟨⟨⟨b, ids⟩, evs⟩, hr, hrep⟩ := Option.map_eq_some_iff.mp hreplayed
  exact ⟨b, ids, evs, hr, hrep, (replays_silent hr .speech 1).1⟩

end Larmindon.Nemotron
