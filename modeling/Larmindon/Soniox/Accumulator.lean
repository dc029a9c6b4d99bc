/-
# `Soniox.Accumulator` — the two lanes, as the source computes them

Final tokens go to the durable lane: they collect in `pending` and are flushed
as a final segment at a sentence end, a speaker change or an `<end>` marker.
The non-final tokens of a response are the volatile lane: together with
`pending` they are regrouped from scratch into one open run a speaker.
`openIds` holds the segment ids those runs are shown under.

Three places of the source can panic, `open_runs.remove(0)`, `open_ids.remove(0)`
and `open_ids.split_off(n)`; the functions that reach them answer with `none`
there.  A `Work` is what such a function threads: `self`, the id counter and the
updates emitted so far.
-/
import Larmindon.Asr
import Larmindon.Soniox.Protocol

namespace Larmindon.Soniox

/-- Sentence terminators, including the full-width CJK forms. -/
def TERMINATORS : List Char := ['.', '!', '?', '。', '！', '？']

/-- Closing punctuation allowed to trail a terminator. -/
def CLOSERS : List Char := ['"', '\x27', '”', '’', ')', ']', '}']

/-- Whether `text` ends a sentence.  A digit before the dot is a decimal; a lone letter before the
dot is an abbreviation or an initial. -/
def endsSentence (text : String) : Bool :=
  match (trimEnd text).toList.reverse.dropWhile fun c => CLOSERS.contains c with
  | [] => false
  | candidate :: chars =>
      if !TERMINATORS.contains candidate then false
      else if candidate == '.' then
        match chars with
        | [] => true
        | prev :: chars =>
            if isAsciiDigit prev then false
            else if isAlphabetic prev then
              -- a boundary here makes `prev` a lone letter
              match chars with
              | [] => false
              | before :: _ => !(isWhitespace before || before == '.')
            else true
      else true

/-- One contiguous stretch of provisional text attributed to a single speaker. -/
structure Run where
  speaker : Option String
  text : String
  deriving DecidableEq, Repr

structure Accumulator where
  /-- Finalized text not yet flushed into a segment. -/
  pending : String
  /-- Speaker of the pending text. Only ever set from final tokens. -/
  pendingSpeaker : Option String
  /-- The latest provisional runs, rebuilt wholesale by every response. -/
  openRuns : List Run
  /-- Ids of the open segments shown, positionally aligned with `openRuns`. -/
  openIds : List ℕ
  deriving DecidableEq, Repr

/-- `self`, the id counter, and the updates emitted so far. -/
structure Work where
  acc : Accumulator
  ids : SegmentIds
  out : List TranscriptUpdate
  deriving DecidableEq, Repr

/-- The update that shows a run under an id. -/
def Run.update (run : Run) (id : ℕ) (isFinal : Bool) : TranscriptUpdate :=
  { segmentId := id, isFinal, text := run.text, speaker := run.speaker.map SpeakerId.mk }

/-- Finalizing with empty text is how a shown segment is withdrawn. -/
def retraction (id : ℕ) : TranscriptUpdate :=
  { segmentId := id, isFinal := true, text := "", speaker := none }

/-- `Vec::split_off(n)`: panics when `n` is past the end. -/
def splitOff {α : Type} (xs : List α) (n : ℕ) : Option (List α × List α) :=
  if n ≤ xs.length then some (xs.take n, xs.drop n) else none

namespace Accumulator

def new : Accumulator := { pending := "", pendingSpeaker := none, openRuns := [], openIds := [] }

/-- True when a token carries displayable speech. -/
def isSpeechToken (token : SonioxToken) : Bool := !token.isSpecial && !isBlank token.text

/-- Finalizes the pending durable text as a segment, under the first open id if there is one. -/
def flush (w : Work) : Option Work :=
  if isBlank w.acc.pending then
    some { w with acc := { w.acc with pending := "" } }
  else
    let final := Run.update ⟨w.acc.pendingSpeaker, w.acc.pending⟩
    match w.acc.openIds with
    | [] =>
        let (id, ids) := w.ids.next
        some ⟨{ w.acc with pending := "" }, ids, w.out ++ [final id true]⟩
    | id :: openIds =>
        match w.acc.openRuns with
        | [] => none
        | _ :: openRuns =>
            some ⟨{ w.acc with pending := "", openRuns, openIds }, w.ids, w.out ++ [final id true]⟩

/-- A labelled final token: a change of speaker flushes, then the label is adopted.  A missing label
inherits the current one. -/
def adoptSpeaker (w : Work) (token : SonioxToken) : Option Work :=
  match token.normalizedSpeaker with
  | none => some w
  | some speaker => do
      let w ←
        if w.acc.pendingSpeaker.any fun current => current != speaker then flush w else some w
      some { w with acc := { w.acc with pendingSpeaker := some speaker } }

/-- The rest of the loop body of `ingest`: a marker flushes, text is appended and may end a
sentence. -/
def appendFinal (w : Work) (token : SonioxToken) : Option Work :=
  if token.isEndMarker then flush w
  else if token.isSpecial then some w
  else
    let w := { w with acc := { w.acc with pending := w.acc.pending ++ token.text } }
    if endsSentence w.acc.pending then flush w else some w

/-- One final token of the durable lane. -/
def ingestFinal (w : Work) (token : SonioxToken) : Option Work := do
  appendFinal (← adoptSpeaker w token) token

/-- One provisional token: the runs so far, and the speaker it inherits. -/
def pushTail (st : List Run × Option String) (token : SonioxToken) : List Run × Option String :=
  let speaker := token.normalizedSpeaker.or st.2
  match st.1.getLast? with
  | some last =>
      if last.speaker = speaker then
        (st.1.dropLast ++ [{ last with text := last.text ++ token.text }], speaker)
      else (st.1 ++ [⟨speaker, token.text⟩], speaker)
  | none => (st.1 ++ [⟨speaker, token.text⟩], speaker)

/-- The non-final, non-special tokens of a response. -/
def provisional (r : SonioxResponse) : List SonioxToken :=
  r.tokens.filter fun t => !t.isFinal && !t.isSpecial

/-- Groups the unflushed durable text and the provisional tail into per-speaker runs, and drops the
blank ones. -/
def buildOpenRuns (a : Accumulator) (r : SonioxResponse) : List Run :=
  let runs := if a.pending.isEmpty then [] else [⟨a.pendingSpeaker, a.pending⟩]
  ((provisional r).foldl pushTail (runs, a.pendingSpeaker)).1.filter fun run => !isBlank run.text

/-- The loop body of `publish_open`: run `i` is shown under open id `i`, or under a fresh one. -/
def showRun (w : Work) (ir : Run × ℕ) : Work :=
  match w.acc.openIds[ir.2]? with
  | some id => { w with out := w.out ++ [ir.1.update id false] }
  | none =>
      let (id, ids) := w.ids.next
      ⟨{ w.acc with openIds := w.acc.openIds ++ [id] }, ids, w.out ++ [ir.1.update id false]⟩

/-- Emits the open runs against stable ids, retracting any segment that no longer has a run. -/
def publishOpen (a : Accumulator) (runs : List Run) (ids : SegmentIds) : Option Work :=
  let w := runs.zipIdx.foldl showRun ⟨a, ids, []⟩
  (splitOff w.acc.openIds runs.length).map fun (kept, gone) =>
    ⟨{ w.acc with openIds := kept, openRuns := runs }, w.ids, w.out ++ gone.map retraction⟩

/-- Folds one response into the two lanes. -/
def ingest (a : Accumulator) (r : SonioxResponse) (ids : SegmentIds) : Option Work := do
  let w ← (r.tokens.filter SonioxToken.isFinal).foldlM ingestFinal ⟨a, ids, []⟩
  let p ← publishOpen w.acc (buildOpenRuns w.acc r) w.ids
  some { p with out := w.out ++ p.out }

/-- The loop body of `finish`: run `i` is finalized under open id `i`, or under a fresh one. -/
def closeRun (openIds : List ℕ) (w : Work) (ir : Run × ℕ) : Work :=
  match openIds[ir.2]? with
  | some id => { w with out := w.out ++ [ir.1.update id true] }
  | none =>
      let (id, ids) := w.ids.next
      { w with ids, out := w.out ++ [ir.1.update id true] }

/-- Finalizes whatever is open. -/
def finish (a : Accumulator) (ids : SegmentIds) : Work :=
  let w := a.openRuns.zipIdx.foldl (closeRun a.openIds)
    ⟨{ a with openRuns := [], openIds := [] }, ids, []⟩
  { w with
    acc := { w.acc with pending := "" }
    out := w.out ++ (a.openIds.drop a.openRuns.length).map retraction }

/-- Drops all in-flight state without emitting. -/
def reset (_ : Accumulator) : Accumulator :=
  { pending := "", pendingSpeaker := none, openRuns := [], openIds := [] }

end Accumulator

example : endsSentence "That is all." = true := by decide +kernel
example : endsSentence "whether the rate stabilizes, e.g." = false := by decide +kernel
example : endsSentence "he said \x22the end.\x22" = true := by decide +kernel

end Larmindon.Soniox
