import Propolis.Lib.Bytes

/-!
# Captured uploads

How a capture ended (`CaptureEnd`, `UploadEnd`) and what a sensor hands over of one
(`sensor-framework/handoff.rs`).  The closure of a job builds its event from the wire
size and the end, so a capture is these with the name and the body.
-/

namespace Propolis.Sensor

inductive CaptureEnd where
  | cancelled | peerClosed | clientLogout | idleTimeout | transportError | malformedInput
  | captureBudget | peerAborted | outputStalled | outputEvicted | memoryLimit
  deriving DecidableEq

/-- How an upload ended: with the session, at its own end of file, or cut off before it. -/
inductive UploadEnd where
  | session (reason : CaptureEnd)
  | transferComplete
  | transferCut (reason : CaptureEnd)
  deriving DecidableEq

/-- A submitted capture. -/
structure Capture where
  /-- The name the peer gave, in UTF-8. -/
  origName : Bytes
  body : Bytes
  wireSize : ℕ
  ended : UploadEnd
  deriving DecidableEq

end Propolis.Sensor
