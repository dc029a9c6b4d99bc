/-
# `Downmix` — what the capture callbacks push of what a device gives them

A device hands over interleaved frames in pieces of any size; a callback makes one
sample of each frame and pushes it into the capture buffer, of which the
processing loop drains the samples and the engine changes the capacity.

    WASAPI      bytes; a partial frame waits for the next packets, until one cannot
                be read                                            (`wasapi_accounts`)
    cpal        samples; a callback reads whole frames, and drops the rest
                                                                   (`cpal_accounts`)
    PipeWire    bytes, mono or stereo; the same, block by block  (`pipewire_accounts`)

What a callback reads is a machine of its own, `read`, that knows nothing of the
buffer, and all three push what they read (`Pushes`).  So for all of them what is
drained is accounted for by what was read (`capture_accounts`), and on whole frames
of a stereo stream they read the same (`backends_agree`).

Decoding four bytes to a float is a parameter, as is the float of a number of
channels.  A run ends with a callback that panics, so none finds the lock of the
buffer poisoned.
-/
import Larmindon.Agc
import Larmindon.CaptureBuffer
import Larmindon.Lib.Chunks
import Larmindon.Lib.LittleEndian

namespace Larmindon

/-! ## A stream and its buffer -/

/-- What happens to the buffer of a stream. -/
inductive CaptureMove (D : Type) where
  | callback (data : D)
  | setCapacity (capacity : ℕ)
  | drainAll
  deriving Repr

/-- What the callbacks were given. -/
def callbacks {D : Type} (ms : List (CaptureMove D)) : List D :=
  ms.filterMap fun m => match m with
    | .callback data => some data
    | .setCapacity _ | .drainAll => none

@[simp] theorem callbacks_append {D : Type} (xs ys : List (CaptureMove D)) :
    callbacks (xs ++ ys) = callbacks xs ++ callbacks ys := by simp [callbacks]

section Stream

variable {K D S : Type}

/-- A stream, with what its callback keeps for the next call; and what the drains return. -/
def captureStep (push : K → D → CaptureBuffer S → Option (K × CaptureBuffer S)) :
    Mealy.Step (K × CaptureBuffer S) (CaptureMove D) (List S × ℕ)
  | (k, b), .callback data => (push k data b).map fun s => (s, [])
  | (k, b), .setCapacity capacity => some ((k, b.setCapacity capacity), [])
  | (k, b), .drainAll => some ((k, b.drainAll.2), [b.drainAll.1])

/-- A callback pushes what `read` makes of the data, and panics where that does. -/
def Pushes (push : K → D → CaptureBuffer S → Option (K × CaptureBuffer S)) (read : Mealy.Step K D S) :
    Prop :=
  ∀ k data b, push k data b = (read k data).map fun r => (r.1, b.extendSamples r.2)

/-- A drain of what was pushed since the last one: the end of it, and how many samples are missing. -/
def Drained (seg : List S) (r : List S × ℕ) : Prop := r.1 <:+ seg ∧ r.1.length + r.2 = seg.length

/-- All samples are accounted for by the drains, and by what the buffer holds. -/
def Accounted (samples : List S) (drains : List (List S × ℕ)) (b : CaptureBuffer S) : Prop :=
  ∃ (segs : List (List S)) (current : List S), samples = segs.flatten ++ current ∧
    List.Forall₂ Drained segs drains ∧ b.Ledger current

variable {push : K → D → CaptureBuffer S → Option (K × CaptureBuffer S)} {read : Mealy.Step K D S}
  {samples : List S} {drains : List (List S × ℕ)} {b : CaptureBuffer S}

theorem Accounted.extendSamples (h : Accounted samples drains b) (new : List S) :
    Accounted (samples ++ new) drains (b.extendSamples new) := by
  obtain ⟨segs, current, rfl, hdrained, hledger⟩ := h
  exact ⟨segs, current ++ new, List.append_assoc _ _ _, hdrained, hledger.extendSamples new⟩

theorem Accounted.setCapacity (h : Accounted samples drains b) (capacity : ℕ) :
    Accounted samples drains (b.setCapacity capacity) := by
  obtain ⟨segs, current, hsamples, hdrained, hledger⟩ := h
  exact ⟨segs, current, hsamples, hdrained, hledger.setCapacity capacity⟩

theorem Accounted.drainAll (h : Accounted samples drains b) :
    Accounted samples (drains ++ [b.drainAll.1]) b.drainAll.2 := by
  obtain ⟨segs, current, rfl, hdrained, hledger⟩ := h
  obtain ⟨hkept, hcounted, hempty⟩ := hledger.drainAll
  refine ⟨segs ++ [current], [], ?_, ?_, hempty⟩
  · rw [List.flatten_append, List.flatten_singleton, List.append_nil]
  · exact List.rel_append hdrained (.cons ⟨hkept, hcounted⟩ .nil)

/-- Where none is missing, they are the samples drained and those held. -/
theorem Accounted.whole (h : Accounted samples drains b) (hdrains : ∀ r ∈ drains, r.2 = 0)
    (hheld : b.droppedSamples = 0) : samples = (drains.map Prod.fst).flatten ++ b.samples := by
  obtain ⟨segs, current, rfl, hdrained, hledger⟩ := h
  have hcurrent : b.samples = current := by
    have hcounted := hledger.counted
    rw [hheld, Nat.add_zero] at hcounted
    exact hledger.kept.eq_of_length hcounted
  have hsegs : drains.map Prod.fst = segs := by
    clear hledger hcurrent hheld
    induction hdrained with
    | nil => rfl
    | @cons seg r segs drains hr _ ih =>
        have hcounted := hr.2
        rw [hdrains r List.mem_cons_self, Nat.add_zero] at hcounted
        rw [List.map_cons, hr.1.eq_of_length hcounted,
          ih fun q hq => hdrains q (List.mem_cons_of_mem r hq)]
  rw [hcurrent, hsegs]

/-- Everything read is accounted for. -/
theorem capture_accounts (hp : Pushes push read) {k₀ k : K} {capacity : ℕ} {ms : List (CaptureMove D)}
    (h : Mealy.run (captureStep push) (k₀, .withCapacity capacity) ms = some ((k, b), drains)) :
    ∃ samples, Mealy.run read k₀ (callbacks ms) = some (k, samples) ∧ Accounted samples drains b := by
  refine Mealy.run_sound (P := fun ms (s : K × CaptureBuffer S) drains =>
    ∃ samples, Mealy.run read k₀ (callbacks ms) = some (s.1, samples) ∧ Accounted samples drains s.2)
    ?_ ⟨[], rfl, [], [], rfl, .nil, .withCapacity capacity⟩ h
  rintro ms ⟨k, b⟩ drains m ⟨k', b'⟩ new ⟨samples, hr, hacc⟩ hs
  cases m with
  | callback data =>
      simp only [captureStep, hp k data b, Option.map_map, Option.map_eq_some_iff] at hs
      obtain ⟨⟨k₁, xs⟩, hread, heq⟩ := hs
      cases heq
      refine ⟨samples ++ xs, ?_, ?_⟩
      · rw [callbacks_append]
        exact Mealy.run_append hr (Mealy.run_singleton hread)
      · rw [List.append_nil]
        exact hacc.extendSamples xs
  | setCapacity capacity =>
      cases hs
      refine ⟨samples, ?_, ?_⟩
      · rw [callbacks_append]
        exact (List.append_nil (callbacks ms)).symm ▸ hr
      · rw [List.append_nil]
        exact hacc.setCapacity capacity
  | drainAll =>
      cases hs
      refine ⟨samples, ?_, hacc.drainAll⟩
      rw [callbacks_append]
      exact (List.append_nil (callbacks ms)).symm ▸ hr

end Stream

/-! ## The backends -/

variable {F : Type} [F32 F] (ofBits : UInt32 → F)

/-- `f32::from_le_bytes`. -/
def f32FromLeBytes (bytes : List UInt8) : F := ofBits (UInt32.ofNat (LittleEndian.value bytes))

/-- `Iterator::sum`, which starts from the zero that no sum changes the sign of. -/
def f32Sum (xs : List F) : F := xs.foldl (· + ·) (-0)

namespace Wasapi

def CAPTURE_CHANNELS : ℕ := 2

def BYTES_PER_FRAME : ℕ := CAPTURE_CHANNELS * 4

def stereo (frame : List UInt8) : F :=
  let left := f32FromLeBytes ofBits (frame.take 4)
  let right := f32FromLeBytes ofBits (frame.drop 4)
  (left + right) * 0.5

/-- A trailing partial frame stays in `queue`. -/
def pushDownmixed (queue : List UInt8) (buffer : CaptureBuffer F) : List UInt8 × CaptureBuffer F :=
  let full := queue.length / BYTES_PER_FRAME * BYTES_PER_FRAME
  if full = 0 then (queue, buffer)
  else
    let bytes := queue.take full
    (queue.drop full,
      (Chunks.cut BYTES_PER_FRAME bytes).foldl (fun b frame => b.pushSample (stereo ofBits frame)) buffer)

/-- The packets that are there, up to one that cannot be read. -/
def readPackets (queue : List UInt8) : List (Except String (List UInt8)) → Option (List UInt8)
  | [] => some queue
  | .ok bytes :: packets => readPackets (queue ++ bytes) packets
  | .error _ :: _ => none

/-- The loop body of `pump_audio`, and how it leaves the loop: then the queue is gone, with the packets
read before, and there is no next time. -/
def pumpAudio (queue : Option (List UInt8)) (packets : List (Except String (List UInt8)))
    (buffer : CaptureBuffer F) : Option (Option (List UInt8) × CaptureBuffer F) :=
  queue.map fun queue =>
    match readPackets queue packets with
    | none => (none, buffer)
    | some queue =>
        let (queue, buffer) := pushDownmixed ofBits queue buffer
        (some queue, buffer)

/-- The frames that are complete; the rest is kept. -/
def read : Mealy.Step (Option (List UInt8)) (List (Except String (List UInt8))) F := fun queue packets =>
  queue.map fun queue =>
    match readPackets queue packets with
    | none => (none, [])
    | some queue => (some (Chunks.tail BYTES_PER_FRAME queue),
        (Chunks.cut BYTES_PER_FRAME queue).map (stereo ofBits))

end Wasapi

namespace Cpal

variable (asF32 : ℕ → F)

/-- `push_mono_convert`; frames of no sample are a panic. -/
def pushMonoConvert {T : Type} (channels : ℕ) (convert : T → F) (data : List T)
    (buffer : CaptureBuffer F) : Option (CaptureBuffer F) :=
  if channels = 1 then some (buffer.extendSamples (data.map convert))
  else if channels = 0 then none
  else some ((Chunks.cut channels data).foldl
    (fun b frame => b.pushSample (f32Sum (frame.map convert) / asF32 channels)) buffer)

def pushMonoF32 (channels : ℕ) (data : List F) (buffer : CaptureBuffer F) :
    Option (CaptureBuffer F) :=
  pushMonoConvert asF32 channels id data buffer

/-- The callback of a stream of floats. -/
def pushF32 (channels : ℕ) (_ : Unit) (data : List F) (buffer : CaptureBuffer F) :
    Option (Unit × CaptureBuffer F) :=
  (pushMonoF32 asF32 channels data buffer).map fun b => ((), b)

/-- What a callback makes of its data. -/
def mono {T : Type} (channels : ℕ) (convert : T → F) (data : List T) : List F :=
  if channels = 1 then data.map convert
  else (Chunks.cut channels data).map fun frame => f32Sum (frame.map convert) / asF32 channels

/-- The callback of a stream of another format. -/
def push {T : Type} (channels : ℕ) (convert : T → F) (_ : Unit) (data : List T)
    (buffer : CaptureBuffer F) : Option (Unit × CaptureBuffer F) :=
  (pushMonoConvert asF32 channels convert data buffer).map fun b => ((), b)

def read {T : Type} (channels : ℕ) (convert : T → F) : Mealy.Step Unit (List T) F := fun _ data =>
  if channels = 0 then none else some ((), mono asF32 channels convert data)

end Cpal

namespace Pipewire

/-- One of the blocks of a buffer: where in its memory the chunk is, how long it is, and how wide a
frame. -/
structure Data where
  offset : ℕ
  size : ℕ
  stride : ℕ
  data : Option (List UInt8)

/-- `&raw_data[offset..offset + size]`. -/
def Data.bytes (d : Data) (raw : List UInt8) : Option (List UInt8) :=
  if d.offset + d.size ≤ raw.length then some ((raw.drop d.offset).take d.size) else none

def stereo (frame : List F) : F :=
  match frame with
  | [left, right] => (left + right) / 2.0
  | _ => 0

/-- The samples of a chunk; none of one whose frames are neither mono nor stereo. -/
def Data.samples (d : Data) : Option (List F) :=
  if d.size = 0 ∨ d.stride = 0 then some []
  else match d.data with
    | none => some []
    | some raw =>
        if d.stride = 4 then
          (d.bytes raw).map fun bytes => (Chunks.cut 4 bytes).map (f32FromLeBytes ofBits)
        else if d.stride = 4 * 2 then
          (d.bytes raw).map fun bytes =>
            (Chunks.cut 2 ((Chunks.cut 4 bytes).map (f32FromLeBytes ofBits))).map stereo
        else some []

/-- The `process` callback on a buffer it has dequeued. -/
def push (_ : Unit) (datas : List Data) (buffer : CaptureBuffer F) : Option (Unit × CaptureBuffer F) :=
  (datas.foldlM (fun b (d : Data) => (d.samples ofBits).map b.extendSamples) buffer).map fun b => ((), b)

def read : Mealy.Step Unit (List Data) F := fun _ datas =>
  (datas.mapM (Data.samples ofBits)).map fun xs => ((), xs.flatten)

end Pipewire

/-! ## What they push -/

/-- Pushing the samples of some frames, one after the other. -/
theorem extendSamples_map {A S : Type} (f : A → S) (xs : List A) (b : CaptureBuffer S) :
    b.extendSamples (xs.map f) = xs.foldl (fun b x => b.pushSample (f x)) b :=
  List.foldl_map

theorem extendSamples_append {S : Type} (b : CaptureBuffer S) (xs ys : List S) :
    b.extendSamples (xs ++ ys) = (b.extendSamples xs).extendSamples ys :=
  List.foldl_append

variable {ofBits}

namespace Wasapi

theorem bytesPerFrame_pos : 0 < BYTES_PER_FRAME := by decide

/-- The full frames are pushed, and what is behind them is kept. -/
theorem pushDownmixed_eq (queue : List UInt8) (buffer : CaptureBuffer F) :
    pushDownmixed ofBits queue buffer = (Chunks.tail BYTES_PER_FRAME queue,
      buffer.extendSamples ((Chunks.cut BYTES_PER_FRAME queue).map (stereo ofBits))) := by
  rw [pushDownmixed, extendSamples_map]
  split
  case isTrue hzero =>
      have hshort : queue.length < BYTES_PER_FRAME := by
        have hdiv := (Nat.mul_eq_zero.mp hzero).resolve_right bytesPerFrame_pos.ne'
        exact (Nat.div_eq_zero_iff.mp hdiv).resolve_left bytesPerFrame_pos.ne'
      rw [Chunks.cut_of_lt hshort, Chunks.tail_of_lt hshort]
      rfl
  case isFalse =>
      have hcut : Chunks.cut BYTES_PER_FRAME
          (queue.take (queue.length / BYTES_PER_FRAME * BYTES_PER_FRAME)) =
          Chunks.cut BYTES_PER_FRAME queue := by
        rw [← Chunks.flatten_cut bytesPerFrame_pos, Chunks.cut_cut_flatten bytesPerFrame_pos]
      simp only [hcut, Chunks.tail]

theorem pushes : Pushes (pumpAudio ofBits) (read ofBits) := by
  intro queue packets buffer
  cases queue with
  | none => rfl
  | some queue =>
      simp only [pumpAudio, read, Option.map_some, pushDownmixed_eq]
      cases readPackets queue packets with
      | none => rfl
      | some queue => rfl

/-- Packets that are read are the bytes they are together. -/
theorem readPackets_ok (queue : List UInt8) (packets : List (List UInt8)) :
    readPackets queue (packets.map .ok) = some (queue ++ packets.flatten) := by
  induction packets generalizing queue with
  | nil => rw [List.flatten_nil, List.append_nil]; rfl
  | cons bytes packets ih =>
      rw [List.map_cons, readPackets, ih, List.flatten_cons, List.append_assoc]

theorem readPackets_cases (queue : List UInt8) (packets : List (Except String (List UInt8))) :
    (∃ bytes : List (List UInt8), packets = bytes.map .ok) ∨
      ∃ message, .error message ∈ packets ∧ readPackets queue packets = none := by
  induction packets generalizing queue with
  | nil => exact .inl ⟨[], rfl⟩
  | cons packet packets ih =>
      cases packet with
      | error message => exact .inr ⟨message, List.mem_cons_self, rfl⟩
      | ok bytes =>
          rcases ih (queue ++ bytes) with ⟨rest, rfl⟩ | ⟨message, hmem, hnone⟩
          · exact .inl ⟨bytes :: rest, rfl⟩
          · exact .inr ⟨message, List.mem_cons_of_mem _ hmem, hnone⟩

/-- What was read of the events, in which every packet could be; the last may be one in which one
could not. -/
structure Pumped (events : List (List (Except String (List UInt8)))) (queue : Option (List UInt8))
    (whole : List (List (List UInt8))) : Prop where
  pumping : ∀ q, queue = some q → events = whole.map (·.map .ok) ∧
    q = Chunks.tail BYTES_PER_FRAME whole.flatten.flatten
  ended : queue = none → ∃ last message, .error message ∈ last ∧ events = whole.map (·.map .ok) ++ [last]

/-- The samples read are those of the bytes of all events together, however they were divided. -/
theorem run_read {queue : Option (List UInt8)} {events : List (List (Except String (List UInt8)))}
    {samples : List F} (h : Mealy.run (read ofBits) (some []) events = some (queue, samples)) :
    ∃ whole : List (List (List UInt8)), Pumped events queue whole ∧
      samples = (Chunks.cut BYTES_PER_FRAME whole.flatten.flatten).map (stereo ofBits) := by
  refine Mealy.run_sound (P := fun events queue samples => ∃ whole : List (List (List UInt8)),
    Pumped events queue whole ∧
      samples = (Chunks.cut BYTES_PER_FRAME whole.flatten.flatten).map (stereo ofBits)) ?_ ?_ h
  · rintro events queue samples packets queue' new ⟨whole, hpumped, rfl⟩ hs
    cases queue with
    | none => cases hs
    | some q =>
        obtain ⟨rfl, rfl⟩ := hpumped.pumping q rfl
        simp only [read, Option.map_some, Option.some.injEq] at hs
        rcases readPackets_cases (Chunks.tail BYTES_PER_FRAME whole.flatten.flatten) packets with
          ⟨bytes, rfl⟩ | ⟨message, hmem, hnone⟩
        · rw [readPackets_ok] at hs
          cases hs
          refine ⟨whole ++ [bytes], ⟨?_, by rintro ⟨⟩⟩, ?_⟩
          · rintro q ⟨⟩
            refine ⟨by rw [List.map_append]; rfl, ?_⟩
            rw [List.flatten_append, List.flatten_append, List.flatten_singleton]
            exact (Chunks.tail_append_tail bytesPerFrame_pos _ _).symm
          · rw [← List.map_append, ← Chunks.cut_append_tail bytesPerFrame_pos, List.flatten_append,
              List.flatten_append, List.flatten_singleton]
        · rw [hnone] at hs
          cases hs
          refine ⟨whole, ⟨by rintro q ⟨⟩, fun _ => ⟨packets, message, hmem, rfl⟩⟩, ?_⟩
          rw [List.append_nil]
  · refine ⟨[], ⟨?_, by rintro ⟨⟩⟩, ?_⟩
    · rintro q ⟨⟩
      exact ⟨rfl, (Chunks.tail_of_lt bytesPerFrame_pos).symm⟩
    · rw [List.flatten_nil, List.flatten_nil, Chunks.cut_nil]
      rfl

end Wasapi

namespace Cpal

variable {asF32 : ℕ → F} {T : Type}

theorem pushes (channels : ℕ) (convert : T → F) :
    Pushes (push asF32 channels convert) (read asF32 channels convert) := by
  intro _ data buffer
  rw [push, pushMonoConvert, read, mono]
  rcases eq_or_ne channels 1 with rfl | hone
  · rw [if_pos rfl, if_neg (by decide), if_pos rfl]
    rfl
  · rw [if_neg hone, if_neg hone]
    rcases eq_or_ne channels 0 with rfl | hzero
    · rw [if_pos rfl, if_pos rfl]
      rfl
    · rw [if_neg hzero, if_neg hzero, Option.map_some, Option.map_some, extendSamples_map]

theorem run_read {channels : ℕ} (hch : 0 < channels) (convert : T → F) (ps : List (List T)) :
    Mealy.run (read asF32 channels convert) () ps =
      some ((), ps.flatMap (mono asF32 channels convert)) := by
  induction ps with
  | nil => rfl
  | cons data ps ih =>
      have hread : read asF32 channels convert () data = some ((), mono asF32 channels convert data) :=
        if_neg hch.ne'
      rw [Mealy.run_cons hread, ih]
      rfl

/-- Whole frames are read apart from what follows them. -/
theorem mono_append {channels : ℕ} (hch : 0 < channels) (convert : T → F) {xs : List T}
    (h : channels ∣ xs.length) (ys : List T) :
    mono asF32 channels convert (xs ++ ys) =
      mono asF32 channels convert xs ++ mono asF32 channels convert ys := by
  rw [mono, mono, mono]
  split
  · exact List.map_append
  · rw [Chunks.cut_append hch h, List.map_append]

theorem mono_flatten {channels : ℕ} (hch : 0 < channels) (convert : T → F) {ps : List (List T)}
    (h : ∀ p ∈ ps, channels ∣ p.length) :
    ps.flatMap (mono asF32 channels convert) = mono asF32 channels convert ps.flatten := by
  induction ps with
  | nil =>
      rw [List.flatten_nil, mono, Chunks.cut_nil]
      split <;> rfl
  | cons p ps ih =>
      rw [List.flatMap_cons, List.flatten_cons, mono_append hch convert (h p List.mem_cons_self),
        ih fun q hq => h q (List.mem_cons_of_mem p hq)]

/-- One sample a frame. -/
theorem length_mono (channels : ℕ) (convert : T → F) (data : List T) :
    (mono asF32 channels convert data).length = data.length / channels := by
  rw [mono]
  split
  case isTrue hone => rw [List.length_map, hone, Nat.div_one]
  case isFalse => rw [List.length_map, Chunks.length_cut]

end Cpal

namespace Pipewire

theorem pushes : Pushes (push ofBits) (read ofBits) := by
  intro _ datas buffer
  rw [push, read]
  induction datas generalizing buffer with
  | nil => rfl
  | cons d datas ih =>
      rw [List.foldlM_cons, List.mapM_cons]
      cases hd : d.samples ofBits with
      | none => rfl
      | some xs =>
          have hrest := ih (buffer.extendSamples xs)
          rw [Option.map_some, Option.bind_eq_bind, Option.bind_some, hrest]
          cases datas.mapM (Data.samples ofBits) with
          | none => rfl
          | some yss =>
              show some ((), (buffer.extendSamples xs).extendSamples yss.flatten) =
                some ((), buffer.extendSamples (xs ++ yss.flatten))
              rw [extendSamples_append]

/-- The blocks are read one after the other, whatever buffers they come in. -/
theorem run_read (ps : List (List Data)) :
    Mealy.run (read ofBits) () ps =
      (ps.flatten.mapM (Data.samples ofBits)).map fun xs => ((), xs.flatten) := by
  induction ps with
  | nil => rfl
  | cons datas ps ih =>
      rw [List.flatten_cons, List.mapM_append]
      cases hd : datas.mapM (Data.samples ofBits) with
      | none =>
          have hread : read ofBits () datas = none := by rw [read, hd]; rfl
          rw [Mealy.run, hread]
          rfl
      | some xs =>
          have hread : read ofBits () datas = some ((), xs.flatten) := by rw [read, hd]; rfl
          rw [Mealy.run_cons hread, ih]
          cases ps.flatten.mapM (Data.samples ofBits) with
          | none => rfl
          | some yss => simp

/-- The bytes of a block. -/
def Data.chunk (d : Data) : List UInt8 := ((d.data.getD []).drop d.offset).take d.size

/-- Frames that are mono or stereo, and there. -/
def Data.Readable (d : Data) : Prop := d.data ≠ none ∧ (d.stride = 4 ∨ d.stride = 4 * 2)

instance : DecidablePred Data.Readable := fun _ => inferInstanceAs (Decidable (_ ∧ _))

variable (ofBits) in
/-- Bytes as samples, of mono frames or of stereo ones. -/
def mix (stride : ℕ) (bytes : List UInt8) : List F :=
  let samples := (Chunks.cut 4 bytes).map (f32FromLeBytes ofBits)
  if stride = 4 then samples else (Chunks.cut 2 samples).map stereo

theorem mix_nil (stride : ℕ) : mix ofBits stride [] = [] := by
  rw [mix, Chunks.cut_nil]
  split
  · rfl
  · rw [List.map_nil, Chunks.cut_nil, List.map_nil]

/-- A block with no frames that could be read is passed over. -/
theorem Data.samples_of_not_readable {d : Data} (h : ¬ d.Readable) : d.samples ofBits = some [] := by
  rw [samples]
  split
  case isTrue => rfl
  case isFalse =>
      split
      case h_1 => rfl
      case h_2 raw hraw =>
          have hstride : ¬ (d.stride = 4 ∨ d.stride = 4 * 2) := fun hs => h ⟨by rw [hraw]; simp, hs⟩
          rw [if_neg fun hs => hstride (.inl hs), if_neg fun hs => hstride (.inr hs)]

/-- Any other block is read as its bytes, which lie in its memory. -/
theorem Data.samples_of_readable {d : Data} (h : d.Readable) {xs : List F}
    (hxs : d.samples ofBits = some xs) : d.chunk.length = d.size ∧ xs = mix ofBits d.stride d.chunk := by
  obtain ⟨offset, size, stride, data⟩ := d
  obtain ⟨hdata, hstride⟩ := h
  obtain ⟨raw, rfl⟩ := Option.ne_none_iff_exists'.mp hdata
  simp only [Data.samples, Data.bytes] at hxs hstride
  rcases Nat.eq_zero_or_pos size with rfl | hsize
  · rw [if_pos (.inl rfl)] at hxs
    cases hxs
    simp [Data.chunk, mix_nil]
  · rw [if_neg (by omega)] at hxs
    rw [Data.chunk, Option.getD_some]
    have hlen : offset + size ≤ raw.length → ((raw.drop offset).take size).length = size := by
      intro hle
      rw [List.length_take, List.length_drop]
      omega
    rcases hstride with rfl | rfl
    · rw [if_pos rfl] at hxs
      simp only [Option.map_eq_some_iff, Option.ite_none_right_eq_some, Option.some.injEq] at hxs
      obtain ⟨_, ⟨hle, rfl⟩, rfl⟩ := hxs
      exact ⟨hlen hle, rfl⟩
    · rw [if_neg (by decide), if_pos rfl] at hxs
      simp only [Option.map_eq_some_iff, Option.ite_none_right_eq_some, Option.some.injEq] at hxs
      obtain ⟨_, ⟨hle, rfl⟩, rfl⟩ := hxs
      exact ⟨hlen hle, rfl⟩

/-- Whole frames are read apart from what follows them. -/
theorem mix_append {stride : ℕ} (hs : stride = 4 ∨ stride = 4 * 2) {xs : List UInt8}
    (h : stride ∣ xs.length) (ys : List UInt8) :
    mix ofBits stride (xs ++ ys) = mix ofBits stride xs ++ mix ofBits stride ys := by
  have hfour : 4 ∣ xs.length := by
    rcases hs with rfl | rfl
    · exact h
    · exact (Nat.dvd_mul_right 4 2).trans h
  simp only [mix]
  rw [Chunks.cut_append (by decide) hfour, List.map_append]
  rcases hs with rfl | rfl
  · rw [if_pos rfl, if_pos rfl, if_pos rfl]
  · have htwo : 2 ∣ ((Chunks.cut 4 xs).map (f32FromLeBytes ofBits)).length := by
      rw [List.length_map, Chunks.length_cut]
      exact Nat.dvd_div_of_mul_dvd h
    rw [if_neg (by decide), if_neg (by decide), if_neg (by decide), Chunks.cut_append (by decide) htwo,
      List.map_append]

theorem length_mix {stride : ℕ} (hs : stride = 4 ∨ stride = 4 * 2) (bytes : List UInt8) :
    (mix ofBits stride bytes).length = bytes.length / stride := by
  rcases hs with rfl | rfl
  · rw [mix, if_pos rfl, List.length_map, Chunks.length_cut]
  · rw [mix, if_neg (by decide), List.length_map, Chunks.length_cut, List.length_map, Chunks.length_cut,
      Nat.div_div_eq_div_mul]

/-- What the blocks are read as. -/
theorem samples_of_mapM {ds : List Data} {xss : List (List F)}
    (h : ds.mapM (Data.samples ofBits) = some xss) :
    (∀ d ∈ ds, d.Readable → d.chunk.length = d.size) ∧
      xss.flatten = (ds.filter (·.Readable)).flatMap fun d => mix ofBits d.stride d.chunk := by
  induction ds generalizing xss with
  | nil =>
      cases h
      exact ⟨by simp, rfl⟩
  | cons d ds ih =>
      rw [List.mapM_cons] at h
      cases hd : d.samples ofBits with
      | none =>
          rw [hd] at h
          cases h
      | some xs =>
          rw [hd] at h
          cases hds : ds.mapM (Data.samples ofBits) with
          | none =>
              rw [hds] at h
              cases h
          | some yss =>
              rw [hds] at h
              cases h
              obtain ⟨hlen, hyss⟩ := ih hds
              rw [List.flatten_cons, hyss]
              by_cases hr : d.Readable
              · obtain ⟨hchunk, rfl⟩ := Data.samples_of_readable hr hd
                refine ⟨?_, ?_⟩
                · rintro e he hre
                  rcases List.mem_cons.mp he with rfl | he
                  · exact hchunk
                  · exact hlen e he hre
                · rw [List.filter_cons_of_pos (by simpa using hr), List.flatMap_cons]
              · rw [Data.samples_of_not_readable hr] at hd
                cases hd
                refine ⟨?_, ?_⟩
                · rintro e he hre
                  rcases List.mem_cons.mp he with rfl | he
                  · exact absurd hre hr
                  · exact hlen e he hre
                · rw [List.filter_cons_of_neg (by simpa using hr), List.nil_append]

/-- Blocks of whole frames are read as their bytes together. -/
theorem mix_flatten {stride : ℕ} (hs : stride = 4 ∨ stride = 4 * 2) {ds : List Data}
    (h : ∀ d ∈ ds, d.stride = stride ∧ stride ∣ d.chunk.length) :
    (ds.flatMap fun d => mix ofBits d.stride d.chunk) = mix ofBits stride (ds.flatMap Data.chunk) := by
  induction ds with
  | nil => exact (mix_nil stride).symm
  | cons d ds ih =>
      obtain ⟨hstride, hdvd⟩ := h d List.mem_cons_self
      rw [List.flatMap_cons, List.flatMap_cons, mix_append hs hdvd, hstride,
        ih fun e he => h e (List.mem_cons_of_mem d he)]

end Pipewire

/-! ## What is drained -/

/-- **No frame of a WASAPI stream is lost between packets.**  However the bytes of the stream come in
packets and the packets in events, and whenever the buffer is drained or resized: of the events in which
every packet could be read, the downmixed frames are accounted for, in order and once, by what the drains
return and count as dropped and by what the buffer holds.  While the loop runs these are all events, and
what waits in the queue is less than a frame, the end of the bytes.  It ends with the first packet that
cannot be read; then the bytes in the queue are lost, with the packets of that event. -/
theorem wasapi_accounts {capacity : ℕ} {ms : List (CaptureMove (List (Except String (List UInt8))))}
    {queue : Option (List UInt8)} {b : CaptureBuffer F} {drains : List (List F × ℕ)}
    (h : Mealy.run (captureStep (Wasapi.pumpAudio ofBits)) (some [], .withCapacity capacity) ms =
      some ((queue, b), drains)) :
    ∃ whole : List (List (List UInt8)),
      Accounted ((Chunks.cut Wasapi.BYTES_PER_FRAME whole.flatten.flatten).map (Wasapi.stereo ofBits))
        drains b ∧
      (∀ q, queue = some q → callbacks ms = whole.map (·.map .ok) ∧
        q = Chunks.tail Wasapi.BYTES_PER_FRAME whole.flatten.flatten ∧
        q.length < Wasapi.BYTES_PER_FRAME) ∧
      (queue = none → ∃ last message, .error message ∈ last ∧
        callbacks ms = whole.map (·.map .ok) ++ [last]) := by
  obtain ⟨samples, hr, hacc⟩ := capture_accounts Wasapi.pushes h
  obtain ⟨whole, hpumped, rfl⟩ := Wasapi.run_read hr
  refine ⟨whole, hacc, ?_, hpumped.ended⟩
  intro q hq
  obtain ⟨hevents, hrest⟩ := hpumped.pumping q hq
  refine ⟨hevents, hrest, ?_⟩
  rw [hrest, Chunks.length_tail]
  exact Nat.mod_lt _ Wasapi.bytesPerFrame_pos

/-- Two frames in three packets, for the first of which the buffer has no room; then one that cannot be
read, behind a frame that is lost. -/
theorem wasapi_accounts_packets :
    ∃ (b : CaptureBuffer ℝ) (drains : List (List ℝ × ℕ)) (whole : List (List (List UInt8))),
      Mealy.run (captureStep (Wasapi.pumpAudio fun bits => (bits.toNat : ℝ))) (some [], .withCapacity 1)
        [.callback [.ok [1, 0, 0], .ok [0, 3, 0, 0]], .callback [.ok [0, 5, 0, 0, 0, 7, 0, 0, 0, 9]],
          .drainAll, .callback [.ok [0, 0, 0, 8, 0, 0, 0], .error "0x88890004"]] =
        some ((none, b), drains) ∧
      Accounted ((Chunks.cut Wasapi.BYTES_PER_FRAME whole.flatten.flatten).map
        (Wasapi.stereo fun bits => (bits.toNat : ℝ))) drains b := by
  obtain ⟨whole, hacc, -, -⟩ := wasapi_accounts (show Mealy.run
    (captureStep (Wasapi.pumpAudio fun bits => (bits.toNat : ℝ))) (some [], .withCapacity 1)
    [.callback [.ok [1, 0, 0], .ok [0, 3, 0, 0]], .callback [.ok [0, 5, 0, 0, 0, 7, 0, 0, 0, 9]],
      .drainAll, .callback [.ok [0, 0, 0, 8, 0, 0, 0], .error "0x88890004"]] =
      some ((none, _), _) from rfl)
  exact ⟨_, _, whole, rfl, hacc⟩

/-- **A cpal stream is read callback by callback.**  With frames of no channel nothing is read, as the
first callback panics.  Otherwise each callback gives one sample for each whole frame of its own data,
and what is behind the last one of these is lost; the samples are accounted for by the drains and the
buffer.  Where every callback is given whole frames, nothing is lost, and how the stream was divided
does not matter. -/
theorem cpal_accounts {T : Type} {asF32 : ℕ → F} {channels capacity : ℕ} {convert : T → F}
    {ms : List (CaptureMove (List T))} {b : CaptureBuffer F} {drains : List (List F × ℕ)}
    (h : Mealy.run (captureStep (Cpal.push asF32 channels convert)) ((), .withCapacity capacity) ms =
      some (((), b), drains)) :
    ∃ samples, Accounted samples drains b ∧
      (channels = 0 → callbacks ms = [] ∧ samples = []) ∧
      (0 < channels → samples = (callbacks ms).flatMap (Cpal.mono asF32 channels convert) ∧
        samples.length = ((callbacks ms).map fun data => data.length / channels).sum ∧
        ((∀ data ∈ callbacks ms, channels ∣ data.length) →
          samples = Cpal.mono asF32 channels convert (callbacks ms).flatten)) := by
  obtain ⟨samples, hr, hacc⟩ := capture_accounts (Cpal.pushes channels convert) h
  refine ⟨samples, hacc, ?_, ?_⟩
  · rintro rfl
    cases hms : callbacks ms with
    | nil =>
        rw [hms] at hr
        cases hr
        exact ⟨rfl, rfl⟩
    | cons data rest =>
        rw [hms] at hr
        obtain ⟨s, os, ps, hs, -, -⟩ := Mealy.run_cons_inv hr
        cases hs
  · intro hch
    rw [Cpal.run_read hch] at hr
    cases hr
    refine ⟨rfl, ?_, Cpal.mono_flatten hch convert⟩
    rw [List.length_flatMap]
    simp only [Cpal.length_mono]

/-- A stereo callback with a sample of a second frame behind the first, which is lost. -/
theorem cpal_accounts_stereo :
    ∃ (b : CaptureBuffer ℝ) (drains : List (List ℝ × ℕ)) (samples : List ℝ),
      Mealy.run (captureStep (Cpal.push (fun n => (n : ℝ)) 2 id)) ((), .withCapacity 4)
        [.callback [1, 2, 3], .drainAll] = some (((), b), drains) ∧
      Accounted samples drains b ∧ samples.length = 1 := by
  obtain ⟨samples, hacc, -, hread⟩ := cpal_accounts (show Mealy.run
    (captureStep (Cpal.push (fun n => (n : ℝ)) 2 id)) ((), .withCapacity 4)
    [.callback [1, 2, 3], .drainAll] = some (((), _), _) from rfl)
  exact ⟨_, _, samples, rfl, hacc, (hread (by decide)).2.1⟩

/-- **A PipeWire stream is read block by block.**  The blocks that are not there, or whose frames are
neither mono nor stereo, are passed over.  Each of the others lies in its memory and gives one sample for
each of its whole frames, and what is behind the last one of these is lost; the samples are accounted for
by the drains and the buffer.  Where they are all mono or all stereo, and of whole frames, nothing is
lost, and how the stream was divided does not matter. -/
theorem pipewire_accounts {capacity : ℕ} {ms : List (CaptureMove (List Pipewire.Data))}
    {b : CaptureBuffer F} {drains : List (List F × ℕ)}
    (h : Mealy.run (captureStep (Pipewire.push ofBits)) ((), .withCapacity capacity) ms =
      some (((), b), drains)) :
    ∃ (blocks : List Pipewire.Data) (samples : List F),
      blocks = (callbacks ms).flatten.filter (·.Readable) ∧
      samples = (blocks.flatMap fun d => Pipewire.mix ofBits d.stride d.chunk) ∧
      Accounted samples drains b ∧
      (∀ d ∈ blocks, d.chunk.length = d.size) ∧
      samples.length = (blocks.map fun d => d.size / d.stride).sum ∧
      ∀ stride, stride = 4 ∨ stride = 4 * 2 → (∀ d ∈ blocks, d.stride = stride ∧ stride ∣ d.size) →
        samples = Pipewire.mix ofBits stride (blocks.flatMap Pipewire.Data.chunk) := by
  obtain ⟨samples, hr, hacc⟩ := capture_accounts Pipewire.pushes h
  rw [Pipewire.run_read] at hr
  obtain ⟨xss, hxss, heq⟩ := Option.map_eq_some_iff.mp hr
  cases heq
  obtain ⟨hall, hsamples⟩ := Pipewire.samples_of_mapM hxss
  have hlen : ∀ d ∈ (callbacks ms).flatten.filter (·.Readable), d.Readable ∧ d.chunk.length = d.size := by
    intro d hd
    obtain ⟨hmem, hread⟩ := List.mem_filter.mp hd
    have hread' : d.Readable := by simpa using hread
    exact ⟨hread', hall d hmem hread'⟩
  refine ⟨_, xss.flatten, rfl, hsamples, hacc, fun d hd => (hlen d hd).2, ?_, ?_⟩
  · rw [hsamples, List.length_flatMap]
    refine congrArg List.sum (List.map_congr_left ?_)
    intro d hd
    rw [Pipewire.length_mix (hlen d hd).1.2, (hlen d hd).2]
  · intro stride hs hd
    rw [hsamples]
    refine Pipewire.mix_flatten hs ?_
    intro d hmem
    rw [(hlen d hmem).2]
    exact hd d hmem

/-- A frame of two channels and one of three, and in another callback one behind a gap. -/
def Pipewire.threeFrames : List (CaptureMove (List Data)) :=
  [.callback [⟨0, 8, 8, some [1, 0, 0, 0, 3, 0, 0, 0]⟩, ⟨0, 12, 12, some (List.replicate 12 0)⟩],
    .callback [⟨4, 8, 8, some [0, 0, 0, 0, 5, 0, 0, 0, 7, 0, 0, 0]⟩], .drainAll]

/-- Of the three, two are read. -/
theorem pipewire_accounts_stereo :
    ∃ (b : CaptureBuffer ℝ) (drains : List (List ℝ × ℕ)) (samples : List ℝ),
      Mealy.run (captureStep (Pipewire.push fun bits => (bits.toNat : ℝ))) ((), .withCapacity 4)
        Pipewire.threeFrames = some (((), b), drains) ∧
      Accounted samples drains b ∧ samples.length = 2 := by
  obtain ⟨blocks, samples, rfl, -, hacc, -, hlen, -⟩ := pipewire_accounts (show Mealy.run
    (captureStep (Pipewire.push fun bits => (bits.toNat : ℝ))) ((), .withCapacity 4)
    Pipewire.threeFrames = some (((), _), _) from rfl)
  exact ⟨_, _, samples, rfl, hacc, hlen⟩

/-! ## The backends agree -/

def CaptureMove.map {D E : Type} (f : D → E) : CaptureMove D → CaptureMove E
  | .callback data => .callback (f data)
  | .setCapacity capacity => .setCapacity capacity
  | .drainAll => .drainAll

/-- What is seen of a run: the buffer and the drains. -/
def seen {K S : Type} (r : Option ((K × CaptureBuffer S) × List (List S × ℕ))) :
    Option (CaptureBuffer S × List (List S × ℕ)) :=
  r.map fun r => (r.1.2, r.2)

/-- A stream whose callback keeps nothing over the data it is given is one that only pushes. -/
theorem seen_run {K D E S : Type} {push : K → E → CaptureBuffer S → Option (K × CaptureBuffer S)} {k : K}
    {f : D → E} {samples : D → List S} {ms : List (CaptureMove D)}
    (h : ∀ data ∈ callbacks ms, ∀ b, push k (f data) b = some (k, b.extendSamples (samples data)))
    (b : CaptureBuffer S) :
    seen (Mealy.run (captureStep push) (k, b) (ms.map (.map f))) =
      seen (Mealy.run (captureStep fun (_ : Unit) data b => some ((), b.extendSamples (samples data)))
        ((), b) ms) := by
  induction ms generalizing b with
  | nil => rfl
  | cons m ms ih =>
      have hrest : ∀ data ∈ callbacks ms, ∀ b,
          push k (f data) b = some (k, b.extendSamples (samples data)) := by
        intro data hd
        refine h data ?_
        rw [← List.singleton_append, callbacks_append]
        exact List.mem_append_right _ hd
      cases m with
      | callback data =>
          have hfirst : captureStep push (k, b) (.callback (f data)) =
              some ((k, b.extendSamples (samples data)), []) := by
            rw [captureStep, h data (by simp [callbacks])]
            rfl
          rw [List.map_cons, CaptureMove.map, Mealy.run_cons hfirst, Mealy.run_cons rfl]
          have hih := ih hrest (b.extendSamples (samples data))
          simp only [seen, Option.map_map] at hih ⊢
          exact hih
      | setCapacity capacity =>
          rw [List.map_cons, CaptureMove.map, Mealy.run_cons rfl, Mealy.run_cons rfl]
          have hih := ih hrest (b.setCapacity capacity)
          simp only [seen, Option.map_map] at hih ⊢
          exact hih
      | drainAll =>
          rw [List.map_cons, CaptureMove.map, Mealy.run_cons rfl, Mealy.run_cons rfl]
          have hih := congrArg (Option.map fun r => (r.1, b.drainAll.1 :: r.2)) (ih hrest b.drainAll.2)
          simp only [seen, Option.map_map] at hih ⊢
          exact hih

section Agree

variable (ofBits : UInt32 → ℝ)

/-- The two samples of a frame. -/
theorem cut_frame {frame : List UInt8} (h : frame.length = 8) :
    (Chunks.cut 4 frame).map (f32FromLeBytes ofBits) =
      [f32FromLeBytes ofBits (frame.take 4), f32FromLeBytes ofBits (frame.drop 4)] := by
  have hrest : (frame.drop 4).length = 4 := by rw [List.length_drop, h]
  rw [Chunks.cut_cons (by decide) (by omega), Chunks.cut_of_length (by decide) hrest]
  rfl

/-- The frames of two samples are those of eight bytes. -/
theorem cut_samples (bytes : List UInt8) (mean : List ℝ → ℝ)
    (h : ∀ left right, mean [left, right] = (left + right) * 0.5) :
    (Chunks.cut 2 ((Chunks.cut 4 bytes).map (f32FromLeBytes ofBits))).map mean =
      (Chunks.cut Wasapi.BYTES_PER_FRAME bytes).map (Wasapi.stereo ofBits) := by
  rw [Chunks.cut_map, Chunks.cut_cut (by decide) (by decide), List.map_map, List.map_map]
  apply List.map_congr_left
  intro frame hframe
  show mean ((Chunks.cut 4 frame).map (f32FromLeBytes ofBits)) = Wasapi.stereo ofBits frame
  rw [cut_frame ofBits (Chunks.length_of_mem_cut hframe), h]
  rfl

/-- A packet of whole frames is pushed, and nothing is left in the queue. -/
theorem pumpAudio_whole {bytes : List UInt8} (h : 8 ∣ bytes.length) (b : CaptureBuffer ℝ) :
    Wasapi.pumpAudio ofBits (some []) [.ok bytes] b =
      some (some [], b.extendSamples
        ((Chunks.cut Wasapi.BYTES_PER_FRAME bytes).map (Wasapi.stereo ofBits))) := by
  have htail : Chunks.tail Wasapi.BYTES_PER_FRAME bytes = [] := by
    refine List.eq_nil_of_length_eq_zero ?_
    rw [Chunks.length_tail]
    exact Nat.mod_eq_zero_of_dvd h
  simp only [Wasapi.pumpAudio, Option.map_some, Wasapi.readPackets, Wasapi.pushDownmixed_eq,
    List.nil_append, htail]

/-- A block of stereo frames gives the same samples. -/
theorem push_block (bytes : List UInt8) (b : CaptureBuffer ℝ) :
    Pipewire.push ofBits () [⟨0, bytes.length, 8, some bytes⟩] b =
      some ((), b.extendSamples
        ((Chunks.cut Wasapi.BYTES_PER_FRAME bytes).map (Wasapi.stereo ofBits))) := by
  have hmean : ∀ left right : ℝ, Pipewire.stereo [left, right] = (left + right) * 0.5 := by
    intro left right
    show (left + right) / 2.0 = _
    norm_num
    ring
  have hsamples : Pipewire.Data.samples ofBits ⟨0, bytes.length, 8, some bytes⟩ =
      some ((Chunks.cut Wasapi.BYTES_PER_FRAME bytes).map (Wasapi.stereo ofBits)) := by
    rw [← cut_samples ofBits bytes Pipewire.stereo hmean]
    cases bytes with
    | nil =>
        rw [Chunks.cut_nil, List.map_nil, Chunks.cut_nil]
        rfl
    | cons byte bytes =>
        simp [Pipewire.Data.samples, Pipewire.Data.bytes]
  rw [Pipewire.push, List.foldlM_cons, hsamples]
  rfl

/-- So do the samples of two channels. -/
theorem pushF32_samples (bytes : List UInt8) (b : CaptureBuffer ℝ) :
    Cpal.pushF32 (fun n => (n : ℝ)) 2 () ((Chunks.cut 4 bytes).map (f32FromLeBytes ofBits)) b =
      some ((), b.extendSamples
        ((Chunks.cut Wasapi.BYTES_PER_FRAME bytes).map (Wasapi.stereo ofBits))) := by
  have hmean : ∀ left right : ℝ,
      f32Sum ([left, right].map id) / ((2 : ℕ) : ℝ) = (left + right) * 0.5 := by
    intro left right
    show (-0 + left + right) / ((2 : ℕ) : ℝ) = _
    norm_num
    ring
  show Cpal.push (fun n => (n : ℝ)) 2 id () _ b = _
  rw [Cpal.pushes 2 id () _ b,
    ← cut_samples ofBits bytes (fun frame => f32Sum (frame.map id) / ((2 : ℕ) : ℝ)) hmean]
  rfl

/-- **The backends downmix alike.**  In exact arithmetic, let a stereo stream come in callbacks of whole
frames, with drains and changes of the capacity in between: as bytes in WASAPI packets, as bytes in
PipeWire buffers or as samples in cpal callbacks, it leaves the same buffer and gives the same drains. -/
theorem backends_agree (b : CaptureBuffer ℝ) {ms : List (CaptureMove (List UInt8))}
    (h : ∀ bytes ∈ callbacks ms, 8 ∣ bytes.length) :
    seen (Mealy.run (captureStep (Wasapi.pumpAudio ofBits)) (some [], b)
        (ms.map (.map fun bytes => [.ok bytes]))) =
      seen (Mealy.run (captureStep (Pipewire.push ofBits)) ((), b)
        (ms.map (.map fun bytes => [⟨0, bytes.length, 8, some bytes⟩]))) ∧
    seen (Mealy.run (captureStep (Wasapi.pumpAudio ofBits)) (some [], b)
        (ms.map (.map fun bytes => [.ok bytes]))) =
      seen (Mealy.run (captureStep (Cpal.pushF32 (fun n => (n : ℝ)) 2)) ((), b)
        (ms.map (.map fun bytes => (Chunks.cut 4 bytes).map (f32FromLeBytes ofBits)))) := by
  rw [seen_run fun bytes hb b => pumpAudio_whole ofBits (h bytes hb) b,
    seen_run fun bytes _ b => push_block ofBits bytes b,
    seen_run fun bytes _ b => pushF32_samples ofBits bytes b]
  exact ⟨rfl, rfl⟩

/-- A frame, and a drain. -/
theorem backends_agree_frame :
    seen (Mealy.run (captureStep (Wasapi.pumpAudio fun bits => (bits.toNat : ℝ)))
        (some [], .withCapacity 1) [.callback [.ok [1, 0, 0, 0, 3, 0, 0, 0]], .drainAll]) =
      seen (Mealy.run (captureStep (Cpal.pushF32 (fun n => (n : ℝ)) 2)) ((), .withCapacity 1)
        [.callback ((Chunks.cut 4 [1, 0, 0, 0, 3, 0, 0, 0]).map
          (f32FromLeBytes fun bits => (bits.toNat : ℝ))), .drainAll]) :=
  (backends_agree (fun bits => (bits.toNat : ℝ)) (.withCapacity 1)
    (show ∀ bytes ∈ callbacks [.callback [1, 0, 0, 0, 3, 0, 0, 0], .drainAll], 8 ∣ bytes.length by
      simp [callbacks])).2

end Agree

end Larmindon
