import JamStream.Protocol.DatagramSize
import JamStream.Session.Membership
import JamStream.Session.Authority
import JamStream.Session.Departure
import JamStream.Session.Freshness
import JamStream.Session.Backlog
import JamStream.Session.Transfer
import JamStream.Session.Flood
import JamStream.Session.BucketLaw
import JamStream.Session.CacheLaw
import JamStream.Recording.Recorder
import JamStream.Recording.Closing
import JamStream.Recording.TakeNames
import JamStream.Recording.FileNames
import JamStream.Recording.Worker
import JamStream.Recording.TrueTime
import JamStream.Recording.Status
import JamStream.Recording.Alignment
import JamStream.Cloud.Upload
import JamStream.Cloud.Commit
import JamStream.Cloud.Markers
import JamStream.Cloud.GcsLifecycle
import JamStream.Cloud.S3Lifecycle
import JamStream.Cloud.Guard
import JamStream.Server.IdleExit
import JamStream.Server.Revocations
import JamStream.Stream.Isolation
import JamStream.Stream.Status
import JamStream.Stream.TrueTime
import JamStream.Session.Forgery
import JamStream.Session.LogLedger
import JamStream.Cloud.Sweep
import JamStream.Cli.End
import JamStream.Cli.Sweep
import JamStream.Cli.Host
import JamStream.Cloud.Firewalls
import JamStream.Cloud.Launch
import JamStream.Cloud.FileLock
import JamStream.Cloud.LocalServers
import JamStream.Protocol.Retransmission
import JamStream.Protocol.InviteText
import JamStream.Protocol.Replay
import JamStream.Protocol.MediaFormat
import JamStream.Server.StreamFeed
import JamStream.Client.Broadcasts
import JamStream.Client.InvitesPanel
import JamStream.Client.Seats
import JamStream.Client.HostEnd
import JamStream.Stream.Redaction
import JamStream.Stream.Feeder
import JamStream.Stream.VideoClock
import JamStream.Server.BootRoundTrip
import JamStream.Server.ConfigReaders
import JamStream.Cloud.Labels
import JamStream.Cli.Fetch
import JamStream.Cli.Downloads
import JamStream.Recording.Calendar
import JamStream.Client.Episodes
import JamStream.Client.Cushion
import JamStream.AudioIo.Bridge
import JamStream.Protocol.Connection
import JamStream.Cloud.GcsUpload
import JamStream.AudioIo.Resample
import JamStream.Engine.Metronome
import JamStream.Engine.Drift
import JamStream.Engine.JitterHealing
import JamStream.Engine.JitterOrder
import JamStream.Session.Reassembly
import JamStream.Session.Retries
import JamStream.Client.Creds
import JamStream.Client.Keyring
import JamStream.Client.TakesShown
import JamStream.Client.TakeHomes
import JamStream.Client.RecordingTab
import JamStream.Cloud.LaunchedServer
import JamStream.Session.Reassembly
import JamStream.Client.ServerLog
import JamStream.Client.Reopening
import JamStream.AudioIo.RateLadder
