import OsslScripts.Backtrace.FixedTables
import OsslScripts.Base64.Encode
import OsslScripts.Base64.ExitHandler
import OsslScripts.Foundation.OrderedTree
import OsslScripts.Foundation.Pool
import OsslScripts.Mprofile.Annotation
import OsslScripts.Mprofile.CallStacks
import OsslScripts.Mprofile.ChainWalk
import OsslScripts.Mprofile.Conservation
import OsslScripts.Mprofile.FailedCalls
import OsslScripts.Mprofile.HeaderSafety
import OsslScripts.Mprofile.KsymsRange
import OsslScripts.Mprofile.LinkedRecording
import OsslScripts.Mprofile.MergedLog
import OsslScripts.Mprofile.ModeCounters
import OsslScripts.Mprofile.Modes
import OsslScripts.Mprofile.Peak
import OsslScripts.Mprofile.ProfileText
import OsslScripts.Mprofile.Sampling
import OsslScripts.Mprofile.SaveStops
import OsslScripts.Mprofile.SavedLog
import OsslScripts.Mprofile.SharedLeaks
import OsslScripts.Mprofile.Sizes
import OsslScripts.Mprofile.StackLaws
import OsslScripts.Mprofile.StackNumbers
import OsslScripts.Mprofile.StackSystem
import OsslScripts.Mprofile.StackUses
import OsslScripts.Mprofile.Stamping
import OsslScripts.Mprofile.Start
