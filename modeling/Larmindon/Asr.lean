/-
# `Asr` — what every speech backend hands to the pipeline

The transcript update and its contract, the two severities of error, and the
counter segment ids are drawn from.  The contract is the one of a journal: a
segment id is a key, an update carries the complete text of its segment, and a
final update closes it.  `TranscriptUpdate.entry` is that reading.
-/
import Larmindon.Text
import Larmindon.Lib.Journal

namespace Larmindon

/-- A stable speaker identity within one session. -/
structure SpeakerId where
  val : String
  deriving DecidableEq, Repr

/-- One segment of transcript, created or revised.  `text` is the complete text of the segment. -/
structure TranscriptUpdate where
  segmentId : ℕ
  isFinal : Bool
  text : String
  speaker : Option SpeakerId
  deriving DecidableEq, Repr

inductive AsrError where
  | fatal (message : String)
  | transient (message : String)
  deriving DecidableEq, Repr

def AsrError.isFatal : AsrError → Bool
  | .fatal _ => true
  | .transient _ => false

/-- The counter behind the segment ids; an id of the source is a `u64`, far from wrapping. -/
abbrev SegmentIds := ℕ

/-- `SegmentIds::new`: the first id is 1. -/
def SegmentIds.new : SegmentIds := 1

/-- `fetch_add(1)`: the id handed out, and the counter after it. -/
def SegmentIds.next (ids : SegmentIds) : ℕ × SegmentIds := (ids, ids + 1)

/-- An update as an entry of the journal of segments. -/
def TranscriptUpdate.entry (u : TranscriptUpdate) : Journal.Entry Char :=
  ⟨u.segmentId, u.isFinal, u.text.toList⟩

/-- A list of updates as a journal. -/
def journal (us : List TranscriptUpdate) : List (Journal.Entry Char) :=
  us.map TranscriptUpdate.entry

@[simp] theorem journal_nil : journal [] = [] := rfl

@[simp] theorem journal_cons (u : TranscriptUpdate) (us : List TranscriptUpdate) :
    journal (u :: us) = u.entry :: journal us := rfl

@[simp] theorem journal_append (us vs : List TranscriptUpdate) :
    journal (us ++ vs) = journal us ++ journal vs := by
  simp [journal]

end Larmindon
