import QtPlayer.Library.AspectFit
import QtPlayer.Library.HalfOpenSegments
import QtPlayer.Library.HashTable
import QtPlayer.Library.IndexedComponents
import QtPlayer.Library.KeyedDifference
import QtPlayer.Library.KeyedWrites
import QtPlayer.Library.LowerBound
import QtPlayer.Library.MachineIntegers
import QtPlayer.Library.OrderedMap
import QtPlayer.Library.QueueMoves
import QtPlayer.Library.QueueSteps
import QtPlayer.Library.RangeRules
import QtPlayer.Library.RingAddressing
import QtPlayer.Library.TransitionRuns
import QtPlayer.Library.VectorWrites
import QtPlayer.Player.ChromaPlanes
import QtPlayer.Player.MediaOwnership
import QtPlayer.Player.PaintedPoints
import QtPlayer.Player.PaintedTextures
import QtPlayer.Player.PictureGeometry
import QtPlayer.Player.TrackModel
import QtPlayer.Player.VideoFrames
import QtPlayer.Player.VideoObject
import QtPlayer.Player.VideoStream
import QtPlayer.Session.AlertQueue
import QtPlayer.Session.EmptyFolders
import QtPlayer.Session.ExtraLimit
import QtPlayer.Session.FailedAddition
import QtPlayer.Session.FileAvailability
import QtPlayer.Session.FileErrors
import QtPlayer.Session.FilePieces
import QtPlayer.Session.FirstLastPriority
import QtPlayer.Session.FolderLayout
import QtPlayer.Session.InfoHashes
import QtPlayer.Session.OrphanTorrents
import QtPlayer.Session.PeerClasses
import QtPlayer.Session.PiecePriorities
import QtPlayer.Session.QueueLimits
import QtPlayer.Session.QueueOrder
import QtPlayer.Session.QueuePriorities
import QtPlayer.Session.RangeMemoryStorage
import QtPlayer.Session.Reconfiguration
import QtPlayer.Session.SeedingLimits
import QtPlayer.Session.SessionLives
import QtPlayer.Session.SessionPhases
import QtPlayer.Session.SessionSetters
import QtPlayer.Session.SessionSettings
import QtPlayer.Session.SettingsPack
import QtPlayer.Session.SpeedLimits
import QtPlayer.Session.StatusReport
import QtPlayer.Session.TorrentData
import QtPlayer.Session.TorrentHandle
import QtPlayer.Session.TorrentLife
import QtPlayer.Session.TorrentSession
import QtPlayer.Session.TorrentSources
import QtPlayer.Storage.AddedSegments
import QtPlayer.Storage.CacheGeometry
import QtPlayer.Storage.ConcurrentReads
import QtPlayer.Storage.DeliveryOrder
import QtPlayer.Storage.FileBounds
import QtPlayer.Storage.FlatPieceMemoryStorage
import QtPlayer.Storage.MachineGeometry
import QtPlayer.Storage.PieceGeometry
import QtPlayer.Storage.Range
import QtPlayer.Storage.ReadPath
import QtPlayer.Storage.ReaderProgress
import QtPlayer.Storage.Redelivery
import QtPlayer.Storage.SeekGuard
import QtPlayer.Storage.SettledSegments
import QtPlayer.Storage.SlotRequests
import QtPlayer.Storage.SlotWindow
import QtPlayer.Storage.StorageInvariant
import QtPlayer.Storage.Streaming
import QtPlayer.Storage.TwoThreads
import QtPlayer.Storage.WithheldBytes
import QtPlayer.Stream.AnnouncedSize
import QtPlayer.Stream.FileMediaStream
import QtPlayer.Stream.Reopening
import QtPlayer.Stream.UnbufferedFile
