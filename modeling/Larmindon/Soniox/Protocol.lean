/-
# `Soniox.Protocol` — tokens, responses and errors of the Soniox wire

Response frames carry no discriminator: a transcript, an error and the terminal
message share one shape.  Only the fields some modelled function reads are here;
timings, confidences and languages are decoded and never looked at.
-/
import Larmindon.Text

namespace Larmindon.Soniox

/-- Emitted by endpoint detection at the end of a finalized segment. -/
def TOKEN_END : String := "<end>"

/-- The server's acknowledgement of a manual finalize request. -/
def TOKEN_FIN : String := "<fin>"

structure SonioxToken where
  text : String := ""
  isFinal : Bool := false
  speaker : Option String := none
  deriving DecidableEq, Repr

namespace SonioxToken

/-- The control tokens that must never reach displayed text. -/
def isSpecial (token : SonioxToken) : Bool :=
  let t := trim token.text
  t == TOKEN_END || t == TOKEN_FIN

/-- The end of a finalized segment; used as a flush signal. -/
def isEndMarker (token : SonioxToken) : Bool := trim token.text == TOKEN_END

/-- White space trimmed, empty treated as absent. -/
def normalizedSpeaker (token : SonioxToken) : Option String :=
  (token.speaker.map trim).filter fun s => !s.isEmpty

end SonioxToken

structure SonioxResponse where
  tokens : List SonioxToken := []
  finished : Bool := false
  errorType : Option String := none
  errorMessage : Option String := none
  deriving DecidableEq, Repr

structure SonioxError where
  errorType : String
  message : String
  retryable : Bool
  deriving DecidableEq, Repr

/-- Transient server-side conditions worth reconnecting through. -/
def isRetryable (errorType : String) : Bool :=
  errorType == "request_timeout" || errorType == "max_duration_reached" ||
    errorType == "limit_exceeded" || errorType == "internal_error" ||
    errorType == "service_unavailable"

/-- An error is told by `error_type` being present, and by nothing else. -/
def SonioxResponse.error (r : SonioxResponse) : Option SonioxError :=
  r.errorType.map fun errorType =>
    { errorType, message := r.errorMessage.getD errorType, retryable := isRetryable errorType }

end Larmindon.Soniox
