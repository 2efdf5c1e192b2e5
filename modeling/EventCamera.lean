import EventCamera.FileTree
import EventCamera.Main
import EventCamera.Wire.DvXplorer.Encode
import EventCamera.Wire.Table
import EventCamera.Proofs.ExactTime
import EventCamera.Proofs.Resets
import EventCamera.Proofs.Fragmentation
import EventCamera.Proofs.Reach
import EventCamera.Proofs.Backpressure
import EventCamera.Proofs.Shutdown
import EventCamera.Proofs.Operations
import EventCamera.Proofs.Sharing
import EventCamera.Proofs.Conduct
import EventCamera.Proofs.Ending
import EventCamera.Proofs.Meeting
import EventCamera.Proofs.Delivery
import EventCamera.Proofs.Order
import EventCamera.Proofs.Window
import EventCamera.Proofs.Epochs
import EventCamera.Proofs.Sampling
import EventCamera.Proofs.Refusal
import EventCamera.Proofs.Repetition
import EventCamera.Proofs.Usability
import EventCamera.Proofs.Overdue
import EventCamera.Proofs.Highest
import EventCamera.Proofs.ResetMarker
import EventCamera.Proofs.Turns
import EventCamera.Proofs.Service
import EventCamera.Proofs.Aftermath
import EventCamera.Proofs.Stopping
import EventCamera.Proofs.Images
import EventCamera.Proofs.Inertial
import EventCamera.Proofs.Options
import EventCamera.Proofs.Pacing
import EventCamera.Proofs.Capture
import EventCamera.Proofs.Overrun
import EventCamera.Proofs.Pixels
import EventCamera.Proofs.RowAddress
import EventCamera.Proofs.Triggers
import EventCamera.Proofs.Readout
import EventCamera.Proofs.Headroom
import EventCamera.Proofs.PixelCodec
import EventCamera.Proofs.Accumulation
import EventCamera.Proofs.Arming
import EventCamera.Proofs.Fullness
import EventCamera.Proofs.Rejection
import EventCamera.Proofs.Growth
import EventCamera.Proofs.PixelGroup
import EventCamera.Proofs.TransferBuffer
import EventCamera.Proofs.Writing
import EventCamera.Proofs.Cells
import EventCamera.Proofs.Tables
import EventCamera.Proofs.Readback
import EventCamera.Proofs.Limits
