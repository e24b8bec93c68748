import Handoff.System
import Handoff.Sim.Bench
import Handoff.Main
import Handoff.Proofs.Link
import Handoff.Proofs.Freshness
import Handoff.Proofs.View
import Handoff.Proofs.Portable
import Handoff.Proofs.Run
import Handoff.Proofs.SystemView
import Handoff.Proofs.WindowIndependence
import Handoff.Proofs.Agreement
import Handoff.Proofs.Release
import Handoff.Proofs.Ownership
import Handoff.Proofs.Scanout
import Handoff.Proofs.Sessions
import Handoff.Proofs.ActionBits
import Handoff.Proofs.Presses
import Handoff.Proofs.Shadow
import Handoff.Proofs.Polls
import Handoff.Proofs.Punctual
import Handoff.Proofs.Handshake
import Handoff.Proofs.LastFrame
import Handoff.Proofs.ScriptedPresses
import Handoff.Proofs.Telemetry
import Handoff.Proofs.Camera
import Handoff.Proofs.Rounding
import Handoff.Proofs.Angles
import Handoff.Proofs.Writes
import Handoff.Proofs.Cadence
import Handoff.Proofs.CacheHistory
import Handoff.Proofs.Tables
import Handoff.Proofs.ResourceFormat
import Handoff.Proofs.RoundTrip
import Handoff.Proofs.SceneFile
import Handoff.Proofs.SceneData
import Handoff.Proofs.WellFormed
import Handoff.Proofs.TripleBuffer
import Handoff.Proofs.Restarts
import Handoff.Proofs.Image
import Handoff.Proofs.MappedMemory
import Handoff.Proofs.Sampling
import Handoff.Proofs.AccessCounts
import Handoff.Proofs.MipChain
import Handoff.Proofs.SceneArithmetic
import Handoff.Proofs.Budget
import Handoff.Proofs.Axes
import Handoff.Proofs.Maintenance
import Handoff.Proofs.Conservation
import Handoff.Proofs.LineWalk
