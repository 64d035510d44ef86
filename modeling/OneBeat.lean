import OneBeat.Core.PlaybackBlocks
import OneBeat.Core.ChannelResets
import OneBeat.Core.SamplerNotes
import OneBeat.Core.SamplerSplit
import OneBeat.Plugin.CommittedScan
import OneBeat.Lib.KeyedRows
import OneBeat.Core.Reclamation
import OneBeat.Commands.TempoGestures
import OneBeat.Model.Deletion
import OneBeat.Model.JsonRoundTrip
import OneBeat.Model.LaneMoves
import OneBeat.Plugin.SandboxBlocks
import OneBeat.Plugin.SandboxEvents
import OneBeat.Plugin.SandboxTokens
import OneBeat.Core.RingFifo
import OneBeat.Plugin.SamplerNoteOff
import OneBeat.Commands.NoteEdit
import OneBeat.Model.ClonedPatterns
import OneBeat.Session.CallRules
import OneBeat.Session.HostedRuns
import OneBeat.Session.QuietEdits
import OneBeat.Session.CurrentPattern
import OneBeat.Session.Clones
import OneBeat.Session.EffectAddresses
import OneBeat.Session.FailedOpens
import OneBeat.Commands.Replay
import OneBeat.Core.ChannelGate
import OneBeat.Core.Solo
import OneBeat.Commands.NoteMoves
import OneBeat.Commands.Snapping
import OneBeat.Commands.SourceWindow
import OneBeat.Model.LoadedIntegers
import OneBeat.Model.MixerRepair
import OneBeat.Model.LoopedNotes
import OneBeat.Model.RecordedStates
import OneBeat.Model.UlidText
import OneBeat.Model.SavedState
import OneBeat.Session.TransportMirror
import OneBeat.Session.SongRender
import OneBeat.Plugin.Rescan
import OneBeat.Plugin.StockReleases
import OneBeat.Lib.Numerals
import OneBeat.Lib.ReflectedWalk
import OneBeat.App.PlaylistStore
import OneBeat.App.PianoRollStore
import OneBeat.App.PianoRollSelection
import OneBeat.Core.MixerOrder
import OneBeat.Core.OneMixer
import OneBeat.Session.ExclusiveExport
import OneBeat.Commands.NoteMultisets
import OneBeat.Commands.ClipCuts
import OneBeat.Commands.PatternCuts
import OneBeat.Commands.RackOrder
import OneBeat.Commands.RackRoster
import OneBeat.Session.InstanceSurface
import OneBeat.Session.SelectedInstance
import OneBeat.App.SampleAudition
import OneBeat.Commands.Standards
import OneBeat.Session.Values
import OneBeat.Session.WrittenValues
import OneBeat.Model.ProjectJson
import OneBeat.Session.LiveStates
import OneBeat.Session.PendingStates
import OneBeat.Session.PatternPreview
import OneBeat.Session.SavableProjects
import OneBeat.Session.SavedBundles
import OneBeat.Commands.StepToggles
import OneBeat.Model.LoadedPatterns
import OneBeat.Model.NoteProperties
import OneBeat.Model.IdGenerator
import OneBeat.Core.AudioFile
import OneBeat.Model.Sha256
import OneBeat.Core.SincResampler
import OneBeat.Session.NarrowedNotes
import OneBeat.Commands.RackHistory
import OneBeat.Session.AddedInstruments
import OneBeat.Session.RackRows
import OneBeat.Session.RackRow
import OneBeat.Lib.RankedRows
import OneBeat.Plugin.ProbeStream
import OneBeat.Plugin.SplitBlocks
import OneBeat.Plugin.StockChords
import OneBeat.App.TypingKeyboard
import OneBeat.Plugin.StockStates
import OneBeat.App.ProjectStore
import OneBeat.App.ClipLeftEdge
import OneBeat.App.CutAndPaste
import OneBeat.App.EditGestures
import OneBeat.Core.ClipReads
import OneBeat.Plugin.ReversePlugin
import OneBeat.Plugin.ClapEvents
import OneBeat.App.RowDrag
import OneBeat.App.MixerScreen
import OneBeat.Session.StretchedClips
