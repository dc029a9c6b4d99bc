import Larmindon.Lib.Mealy
import Larmindon.Lib.Records
import Larmindon.Lib.LittleEndian
import Larmindon.Soniox.Accumulator
import Larmindon.Soniox.Lanes
import Larmindon.Soniox.Durable
import Larmindon.Soniox.Lifecycle
import Larmindon.Soniox.Backend
import Larmindon.Soniox.Pcm
import Larmindon.Soniox.Transcript
import Larmindon.Soniox.OpenLane
import Larmindon.Soniox.Client
import Larmindon.Soniox.Moves
import Larmindon.Soniox.Session
import Larmindon.Soniox.World
import Larmindon.Soniox.Serving
import Larmindon.Soniox.FatalEnd
import Larmindon.Soniox.Upload
import Larmindon.Soniox.Backlog
import Larmindon.Soniox.Connections
import Larmindon.Soniox.Wire
import Larmindon.Soniox.Holes
import Larmindon.Soniox.Shutdown
import Larmindon.Soniox.Feed
import Larmindon.Soniox.Refinement
import Larmindon.Soniox.Messages
import Larmindon.Soniox.Segments
import Larmindon.Vad
import Larmindon.Gating
import Larmindon.Nemotron.Backend
import Larmindon.Nemotron.Utterances
import Larmindon.Nemotron.Drains
import Larmindon.Lib.Batches
import Larmindon.Agc
import Larmindon.Silero
import Larmindon.Pipeline
import Larmindon.Divisions
import Larmindon.Delivery
import Larmindon.Capture
import Larmindon.ProcessingLoop
import Larmindon.AudioEngine
import Larmindon.Coherence
import Larmindon.Nemotron.Moves
import Larmindon.Nemotron.Derives
import Larmindon.BackendCache
import Larmindon.VadCache
import Larmindon.Watcher
import Larmindon.LiveSource
import Larmindon.CaptureBuffer
import Larmindon.Downmix
import Larmindon.Lib.Counters
import Larmindon.Boundaries
import Larmindon.Soniox.Sentences
import Larmindon.Soniox.Turns
import Larmindon.Soniox.Calls
import Larmindon.Soniox.Statuses
import Larmindon.Soniox.Teardown
import Larmindon.Nemotron.Replays
import Larmindon.Nemotron.Resets
import Larmindon.Nemotron.Spoken
import Larmindon.Soniox.Listening
import Larmindon.Sessions
import Larmindon.Rates
import Larmindon.Removals
import Larmindon.Settings
import Larmindon.Iterations
import Larmindon.Lib.BoundedQueue
import Larmindon.PreSpeech
import Larmindon.Gain
import Larmindon.Lib.Smoothing
import Larmindon.Settling
