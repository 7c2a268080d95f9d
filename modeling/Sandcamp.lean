import Sandcamp.Foundations.Bytes
import Sandcamp.Foundations.Framing
import Sandcamp.Foundations.Escaping
import Sandcamp.Foundations.Wrapping
import Sandcamp.Foundations.UnixPath
import Sandcamp.Foundations.CleanPath
import Sandcamp.Foundations.FileTree
import Sandcamp.Foundations.PathWalk
import Sandcamp.Foundations.PathCalls
import Sandcamp.Foundations.Subtree
import Sandcamp.Foundations.MountTable
import Sandcamp.Foundations.Checks
import Sandcamp.Foundations.Actions
import Sandcamp.Foundations.Nesting
import Sandcamp.Foundations.Utf8
import Sandcamp.Foundations.Text
import Sandcamp.Foundations.Json
import Sandcamp.Foundations.JsonText
import Sandcamp.Foundations.Base64
import Sandcamp.Foundations.SortedMap
import Sandcamp.Foundations.Windows
import Sandcamp.Foundations.Credentials
import Sandcamp.Foundations.Program
import Sandcamp.Foundations.Passage
import Sandcamp.Foundations.HttpText
import Sandcamp.Foundations.Trace
import Sandcamp.Foundations.Interleaving
import Sandcamp.Foundations.Monitors
import Sandcamp.Foundations.Propagation
import Sandcamp.Foundations.Seclusion
import Sandcamp.Campd.Spec
import Sandcamp.Campd.Validate
import Sandcamp.Campd.WellFormed
import Sandcamp.Campd.Decode
import Sandcamp.Campd.Launch
import Sandcamp.Campd.Kernel
import Sandcamp.Campd.Supervisor
import Sandcamp.Campd.History
import Sandcamp.Campd.Health
import Sandcamp.Campd.Steps
import Sandcamp.Campd.Invariant
import Sandcamp.Campd.Rounds
import Sandcamp.Campd.Closing
import Sandcamp.Campd.Launching
import Sandcamp.Campd.Runs
import Sandcamp.Campd.Guarantees
import Sandcamp.Campd.Gates
import Sandcamp.Campd.Cleanup
import Sandcamp.Campd.Frames
import Sandcamp.Campd.Watch
import Sandcamp.Campd.Ownership
import Sandcamp.Campd.ShutdownTargets
import Sandcamp.Campd.Moves
import Sandcamp.Campd.Course
import Sandcamp.Campd.Confinement
import Sandcamp.Campd.Itinerary
import Sandcamp.Campd.Verdict
import Sandcamp.Campd.Escalation
import Sandcamp.Campd.HttpProbe
import Sandcamp.Campd.Ready
import Sandcamp.Sandrun.Args
import Sandcamp.Sandrun.Identity
import Sandcamp.Sandrun.Overlay
import Sandcamp.Sandrun.Exclusive
import Sandcamp.Sandrun.Workspaces
import Sandcamp.Sandrun.Directories
import Sandcamp.Sandrun.OverlayOptions
import Sandcamp.Sandrun.Attempts
import Sandcamp.Sandrun.Recovery
import Sandcamp.Sandrun.UpperMetadata
import Sandcamp.Sandrun.Settings
import Sandcamp.Sandrun.Rootfs
import Sandcamp.Sandrun.Passwd
import Sandcamp.Sandrun.Mounts
import Sandcamp.Sandrun.Accepted
import Sandcamp.Sandrun.Arguments
import Sandcamp.Sandrun.Targets
import Sandcamp.Sandrun.Hiding
import Sandcamp.Sandrun.Resolution
import Sandcamp.Sandrun.KernelWalk
import Sandcamp.Sandrun.BindTargets
import Sandcamp.Sandrun.ByPath
import Sandcamp.Sandrun.Containment
import Sandcamp.Sandrun.Preflight
import Sandcamp.Sdk.Spec
import Sandcamp.Sdk.Images
import Sandcamp.Sdk.Resolved
import Sandcamp.Sdk.Render
import Sandcamp.Sdk.Accepted
import Sandcamp.Sdk.Wire
import Sandcamp.Reading
import Sandcamp.Agreement
import Sandcamp.Budget
import Sandcamp.ProbePath
import Sandcamp.MountTargets
import Sandcamp.Payload
import Sandcamp.Volumes
import Sandcamp.Handoff
import Sandcamp.Accounts
import Sandcamp.Flattening
import Sandcamp.Switching
import Sandcamp.Sandrun.Syscalls
import Sandcamp.Sandrun.Linux
import Sandcamp.Sandrun.Footprint
import Sandcamp.Sandrun.Namespaces
import Sandcamp.Sandrun.Phases
import Sandcamp.Sandrun.Order
import Sandcamp.Sandrun.Isolation
import Sandcamp.Sandrun.Transcript
import Sandcamp.Sandrun.Main
import Sandcamp.Endings
import Sandcamp.Deployment
import Sandcamp.Bootstrap
import Sandcamp.Campd.Workers
import Sandcamp.Campd.Serving
import Sandcamp.Sandrun.Quiet
