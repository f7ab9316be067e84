import Docker.Layer.Backing
import Docker.Layer.Depth
import Docker.Layer.Restart
import Docker.Layer.Rollback
import Docker.Stdcopy.RoundTrip
import Docker.Xfer.Referenced
import Docker.Xfer.Slots
import Docker.Archive.Excludes
import Docker.Archive.IDMaps
import Docker.Archive.Links
import Docker.Archive.Rebase
import Docker.Archive.RoundTrip
import Docker.Image.Content
import Docker.Reference.Delete
import Docker.Reference.Qualified
import Docker.Ioutils.Blocking
import Docker.Ioutils.OneStream
import Docker.Overlay2.Mount
import Docker.Devmapper.Concurrent
import Docker.Devmapper.Recovery
import Docker.Daemon.Events
import Docker.Daemon.Health
import Docker.Daemon.Stranded
import Docker.Volume.Store
import Docker.Logger.Copier
import Docker.Logger.Rotate
import Docker.Symlink.Scope
import Docker.Locker.Exclusive
import Docker.Registry.Results
import Docker.Registry.Search
import Docker.Distribution.Fallback
import Docker.Distribution.Metadata
import Docker.Distribution.Schema2
import Docker.Dockerfile.Lines
import Docker.Dockerfile.Segments
import Docker.Parsers.UintList
