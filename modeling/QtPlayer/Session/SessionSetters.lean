import QtPlayer.Session.SessionSettings

/- session.cpp: the setters of Session, and runs of them. What a setter does beside the options,
   such as restarting a timer, is left out. -/
namespace SessionSettings
open TorrentData TorrentSession TransitionRuns SettingsPacks

/- The setters. -/

section Setters

variable {α : Type} [DecidableEq α] (w : ConfiguredSession)

def setFields (change : Fields → Fields) : ConfiguredSession :=
  { w with fields := change w.fields }

def setDirectly (current value : α) (changed : ConfiguredSession) : ConfiguredSession :=
  if value ≠ current then changed else w

def setDeferred (current value : α) (changed : ConfiguredSession) : ConfiguredSession :=
  if value ≠ current then configureDeferred changed else w

def setListening (current value : α) (changed : ConfiguredSession) : ConfiguredSession :=
  if value ≠ current then configureListeningInterface changed else w

/-- Limits are given in bytes and kept in KiB; `applies` tells whether the limit is in use. -/
def setSpeedLimit (limit current : Int) (applies : Bool) (change : Int → Fields → Fields) :
    ConfiguredSession :=
  let limit := max (limit.tdiv 1024) 0
  if limit = current then w
  else if applies then configureDeferred (setFields w (change limit))
  else setFields w (change limit)

def setAutoTMMDisabledByDefault (value : Bool) :=
  setFields w fun f => { f with isAutoTMMDisabledByDefault := value }
def setDisableAutoTMMWhenCategoryChanged (value : Bool) :=
  setFields w fun f => { f with isDisableAutoTMMWhenCategoryChanged := value }
def setDisableAutoTMMWhenDefaultSavePathChanged (value : Bool) :=
  setFields w fun f => { f with isDisableAutoTMMWhenDefaultSavePathChanged := value }
def setDisableAutoTMMWhenCategorySavePathChanged (value : Bool) :=
  setFields w fun f => { f with isDisableAutoTMMWhenCategorySavePathChanged := value }
def setPeXEnabled (enabled : Bool) := setFields w fun f => { f with isPeXEnabled := enabled }
def setAddTorrentPaused (value : Bool) :=
  setFields w fun f => { f with isAddTorrentPaused := value }
def setCreateTorrentSubfolder (value : Bool) :=
  setFields w fun f => { f with isCreateTorrentSubfolder := value }
def setTrackerEnabled (enabled : Bool) := setDirectly w w.fields.isTrackerEnabled enabled
  (setFields w fun f => { f with isTrackerEnabled := enabled })
def setRefreshInterval (value : Nat) := setDirectly w w.fields.refreshInterval value
  (setFields w fun f => { f with refreshInterval := value })
def setPreallocationEnabled (enabled : Bool) :=
  setFields w fun f => { f with isPreallocationEnabled := enabled }
def setNetworkInterfaceName (name : String) :=
  setFields w fun f => { f with networkInterfaceName := name }

def limitOf (max : Int) : Int := if 0 < max then max else -1

def setMaxConnectionsPerTorrent (max : Int) :=
  setDirectly w w.fields.maxConnectionsPerTorrent (limitOf max)
    (setFields w fun f => { f with maxConnectionsPerTorrent := limitOf max })
def setMaxUploadsPerTorrent (max : Int) :=
  setDirectly w w.fields.maxUploadsPerTorrent (limitOf max)
    (setFields w fun f => { f with maxUploadsPerTorrent := limitOf max })

/-- This one has an empty body. -/
def setBandwidthSchedulerEnabled (_ : Bool) : ConfiguredSession := w

def setAddTrackersEnabled (enabled : Bool) : ConfiguredSession :=
  { w with session := { w.session with isAddTrackersEnabled := enabled } }

def trackerList (trackers : String) : List String :=
  ((trackers.splitOn "\n").map fun tracker => tracker.trimAscii.toString).filter (· ≠ "")

def setAdditionalTrackers (trackers : String) :=
  setDirectly w w.fields.additionalTrackers trackers
    { setFields w fun f => { f with additionalTrackers := trackers } with
      session := { w.session with additionalTrackerList := trackerList trackers } }

def updateSeedingLimitTimer : ConfiguredSession :=
  { w with session := { w.session with seedingLimitTimerActive :=
      !(decide (w.fields.globalMaxRatio = -1) && decide (w.fields.globalMaxSeedingMinutes = -1) &&
        w.session.torrents.entries.all fun torrent =>
          decide (torrent.2.ratioLimit < 0) && decide (torrent.2.seedingTimeLimit < 0)) } }

def setGlobalMaxRatio (ratio : Rat) : ConfiguredSession :=
  let ratio := if ratio < 0 then -1 else ratio
  setDirectly w w.fields.globalMaxRatio ratio
    (updateSeedingLimitTimer (setFields w fun f => { f with globalMaxRatio := ratio }))

def setGlobalMaxSeedingMinutes (minutes : Int) : ConfiguredSession :=
  let minutes := if minutes < 0 then -1 else minutes
  setDirectly w w.fields.globalMaxSeedingMinutes minutes
    (updateSeedingLimitTimer (setFields w fun f => { f with globalMaxSeedingMinutes := minutes }))

def setDHTEnabled (enabled : Bool) := setDeferred w w.fields.isDHTEnabled enabled
  (setFields w fun f => { f with isDHTEnabled := enabled })
def setLSDEnabled (enabled : Bool) := setDeferred w w.fields.isLSDEnabled enabled
  (setFields w fun f => { f with isLSDEnabled := enabled })
def setEncryption (state : Int) := setDeferred w w.fields.encryption state
  (setFields w fun f => { f with encryption := state })
def setForceProxyEnabled (enabled : Bool) := setDeferred w w.fields.isForceProxyEnabled enabled
  (setFields w fun f => { f with isForceProxyEnabled := enabled })
def setProxyPeerConnectionsEnabled (enabled : Bool) :=
  setDeferred w w.fields.isProxyPeerConnectionsEnabled enabled
    (setFields w fun f => { f with isProxyPeerConnectionsEnabled := enabled })
def setChokingAlgorithm (mode : ChokingAlgorithm) := setDeferred w w.fields.chokingAlgorithm mode
  (setFields w fun f => { f with chokingAlgorithm := mode })
def setSeedChokingAlgorithm (mode : SeedChokingAlgorithm) :=
  setDeferred w w.fields.seedChokingAlgorithm mode
    (setFields w fun f => { f with seedChokingAlgorithm := mode })
def setIPFilteringEnabled (enabled : Bool) :=
  setDeferred w w.fields.isIPFilteringEnabled enabled
    { setFields w fun f => { f with isIPFilteringEnabled := enabled } with
      IPFilteringChanged := true }
def setIPFilterFile (path : String) := setDeferred w w.fields.IPFilterFile path
  { setFields w fun f => { f with IPFilterFile := path } with IPFilteringChanged := true }
def setAnnounceToAllTrackers (val : Bool) := setDeferred w w.fields.announceToAllTrackers val
  (setFields w fun f => { f with announceToAllTrackers := val })
def setAnnounceToAllTiers (val : Bool) := setDeferred w w.fields.announceToAllTiers val
  (setFields w fun f => { f with announceToAllTiers := val })
def setDiskCacheSize (size : Int) := setDeferred w w.fields.diskCacheSize (min size 4096)
  (setFields w fun f => { f with diskCacheSize := min size 4096 })
def setDiskCacheTTL (ttl : Int) := setDeferred w w.fields.diskCacheTTL ttl
  (setFields w fun f => { f with diskCacheTTL := ttl })
def setUseOSCache (use : Bool) := setDeferred w w.fields.useOSCache use
  (setFields w fun f => { f with useOSCache := use })
def setGuidedReadCacheEnabled (enabled : Bool) :=
  setDeferred w w.fields.guidedReadCacheEnabled enabled
    (setFields w fun f => { f with guidedReadCacheEnabled := enabled })
def setCoalesceReadWriteEnabled (enabled : Bool) :=
  setDeferred w w.fields.coalesceReadWriteEnabled enabled
    (setFields w fun f => { f with coalesceReadWriteEnabled := enabled })
def setSuggestMode (mode : Bool) := setDeferred w w.fields.isSuggestMode mode
  (setFields w fun f => { f with isSuggestMode := mode })
def setSendBufferWatermark (value : Int) := setDeferred w w.fields.sendBufferWatermark value
  (setFields w fun f => { f with sendBufferWatermark := value })
def setSendBufferLowWatermark (value : Int) :=
  setDeferred w w.fields.sendBufferLowWatermark value
    (setFields w fun f => { f with sendBufferLowWatermark := value })
def setSendBufferWatermarkFactor (value : Int) :=
  setDeferred w w.fields.sendBufferWatermarkFactor value
    (setFields w fun f => { f with sendBufferWatermarkFactor := value })
def setAnonymousModeEnabled (enabled : Bool) :=
  setDeferred w w.fields.isAnonymousModeEnabled enabled
    (setFields w fun f => { f with isAnonymousModeEnabled := enabled })
def setQueueingSystemEnabled (enabled : Bool) := setDeferred w w.session.isQueueingEnabled enabled
  { w with session := { w.session with isQueueingEnabled := enabled } }
def setMaxActiveDownloads (limit : Int) :=
  setDeferred w w.session.maxActiveDownloads (max limit (-1))
    { w with session := { w.session with maxActiveDownloads := max limit (-1) } }
def setMaxActiveUploads (limit : Int) := setDeferred w w.fields.maxActiveUploads (max limit (-1))
  (setFields w fun f => { f with maxActiveUploads := max limit (-1) })
def setMaxActiveTorrents (limit : Int) :=
  setDeferred w w.session.maxActiveTorrents (max limit (-1))
    { w with session := { w.session with maxActiveTorrents := max limit (-1) } }
def setIgnoreSlowTorrentsForQueueing (ignore : Bool) :=
  setDeferred w w.fields.ignoreSlowTorrentsForQueueing ignore
    (setFields w fun f => { f with ignoreSlowTorrentsForQueueing := ignore })
def setDownloadRateForSlowTorrents (rateInKibiBytes : Int) :=
  setDeferred w w.fields.downloadRateForSlowTorrents rateInKibiBytes
    (setFields w fun f => { f with downloadRateForSlowTorrents := rateInKibiBytes })
def setUploadRateForSlowTorrents (rateInKibiBytes : Int) :=
  setDeferred w w.fields.uploadRateForSlowTorrents rateInKibiBytes
    (setFields w fun f => { f with uploadRateForSlowTorrents := rateInKibiBytes })
def setSlowTorrentsInactivityTimer (timeInSeconds : Int) :=
  setDeferred w w.fields.slowTorrentsInactivityTimer timeInSeconds
    (setFields w fun f => { f with slowTorrentsInactivityTimer := timeInSeconds })
def setOutgoingPortsMin (min : Int) := setDeferred w w.fields.outgoingPortsMin min
  (setFields w fun f => { f with outgoingPortsMin := min })
def setOutgoingPortsMax (max : Int) := setDeferred w w.fields.outgoingPortsMax max
  (setFields w fun f => { f with outgoingPortsMax := max })
def setIgnoreLimitsOnLAN (ignore : Bool) := setDeferred w w.fields.ignoreLimitsOnLAN ignore
  (setFields w fun f => { f with ignoreLimitsOnLAN := ignore })
def setIncludeOverheadInLimits (includes : Bool) :=
  setDeferred w w.fields.includeOverheadInLimits includes
    (setFields w fun f => { f with includeOverheadInLimits := includes })
def setAnnounceIP (ip : String) := setDeferred w w.fields.announceIP ip
  (setFields w fun f => { f with announceIP := ip })
def setSuperSeedingEnabled (enabled : Bool) :=
  setDeferred w w.fields.isSuperSeedingEnabled enabled
    (setFields w fun f => { f with isSuperSeedingEnabled := enabled })

def setMaxConnections (max : Int) := setDeferred w w.fields.maxConnections (limitOf max)
  (setFields w fun f => { f with maxConnections := limitOf max })
def setMaxHalfOpenConnections (max : Int) :=
  setDeferred w w.fields.maxHalfOpenConnections (limitOf max)
    (setFields w fun f => { f with maxHalfOpenConnections := limitOf max })
def setMaxUploads (max : Int) := setDeferred w w.fields.maxUploads (limitOf max)
  (setFields w fun f => { f with maxUploads := limitOf max })

def setBTProtocol (protocol : Int) : ConfiguredSession :=
  let set (protocol : BTProtocol) := setDeferred w w.fields.btProtocol protocol
    (setFields w fun f => { f with btProtocol := protocol })
  if protocol = 0 then set .both
  else if protocol = 1 then set .tcp
  else if protocol = 2 then set .utp
  else w

def setUTPRateLimited (limited : Bool) := setDeferred w w.fields.isUTPRateLimited limited
  (setFields w fun f => { f with isUTPRateLimited := limited })
def setUtpMixedMode (mode : MixedModeAlgorithm) := setDeferred w w.fields.utpMixedMode mode
  (setFields w fun f => { f with utpMixedMode := mode })
def setMultiConnectionsPerIpEnabled (enabled : Bool) :=
  setDeferred w w.fields.multiConnectionsPerIpEnabled enabled
    (setFields w fun f => { f with multiConnectionsPerIpEnabled := enabled })
def setTrackerFilteringEnabled (enabled : Bool) :=
  setDeferred w w.fields.isTrackerFilteringEnabled enabled
    (setFields w fun f => { f with isTrackerFilteringEnabled := enabled })

def setPort (value : Int) := setListening w (port w.fields) value
  (setFields w fun f => { f with port := value })

/-- The only setter of what is listened on that schedules nothing. -/
def setUseRandomPort (value : Bool) := setFields w fun f => { f with useRandomPort := value }

def setNetworkInterface (iface : String) := setListening w w.fields.networkInterface iface
  (setFields w fun f => { f with networkInterface := iface })
def setNetworkInterfaceAddress (address : String) :=
  setListening w w.fields.networkInterfaceAddress address
    (setFields w fun f => { f with networkInterfaceAddress := address })
def setIPv6Enabled (enabled : Bool) := setListening w w.fields.isIPv6Enabled enabled
  (setFields w fun f => { f with isIPv6Enabled := enabled })

def setGlobalDownloadSpeedLimit (limit : Int) :=
  setSpeedLimit w limit (globalDownloadSpeedLimit w.fields) (!w.fields.isAltGlobalSpeedLimitEnabled)
    fun limit f => { f with globalDownloadSpeedLimit := limit }
def setGlobalUploadSpeedLimit (limit : Int) :=
  setSpeedLimit w limit (globalUploadSpeedLimit w.fields) (!w.fields.isAltGlobalSpeedLimitEnabled)
    fun limit f => { f with globalUploadSpeedLimit := limit }
def setAltGlobalDownloadSpeedLimit (limit : Int) :=
  setSpeedLimit w limit (altGlobalDownloadSpeedLimit w.fields)
    w.fields.isAltGlobalSpeedLimitEnabled
    fun limit f => { f with altGlobalDownloadSpeedLimit := limit }
def setAltGlobalUploadSpeedLimit (limit : Int) :=
  setSpeedLimit w limit (altGlobalUploadSpeedLimit w.fields) w.fields.isAltGlobalSpeedLimitEnabled
    fun limit f => { f with altGlobalUploadSpeedLimit := limit }

def setDownloadSpeedLimit (limit : Int) :=
  if w.fields.isAltGlobalSpeedLimitEnabled then setAltGlobalDownloadSpeedLimit w limit
  else setGlobalDownloadSpeedLimit w limit
def setUploadSpeedLimit (limit : Int) :=
  if w.fields.isAltGlobalSpeedLimitEnabled then setAltGlobalUploadSpeedLimit w limit
  else setGlobalUploadSpeedLimit w limit

def setAltGlobalSpeedLimitEnabled (enabled : Bool) : ConfiguredSession :=
  if enabled = w.fields.isAltGlobalSpeedLimitEnabled then w
  else
    applyBandwidthLimits (setFields w fun f => { f with isAltGlobalSpeedLimitEnabled := enabled })

end Setters

/- Runs. -/

/-- A call of a public setter. setAsyncIOThreads is declared, but nowhere defined. -/
inductive Setter where
  | setAutoTMMDisabledByDefault (value : Bool)
  | setDisableAutoTMMWhenCategoryChanged (value : Bool)
  | setDisableAutoTMMWhenDefaultSavePathChanged (value : Bool)
  | setDisableAutoTMMWhenCategorySavePathChanged (value : Bool)
  | setPeXEnabled (enabled : Bool)
  | setAddTorrentPaused (value : Bool)
  | setCreateTorrentSubfolder (value : Bool)
  | setTrackerEnabled (enabled : Bool)
  | setRefreshInterval (value : Nat)
  | setPreallocationEnabled (enabled : Bool)
  | setNetworkInterfaceName (name : String)
  | setMaxConnectionsPerTorrent (max : Int)
  | setMaxUploadsPerTorrent (max : Int)
  | setBandwidthSchedulerEnabled (enabled : Bool)
  | setAddTrackersEnabled (enabled : Bool)
  | setAdditionalTrackers (trackers : String)
  | setGlobalMaxRatio (ratio : Rat)
  | setGlobalMaxSeedingMinutes (minutes : Int)
  | setDHTEnabled (enabled : Bool)
  | setLSDEnabled (enabled : Bool)
  | setEncryption (state : Int)
  | setForceProxyEnabled (enabled : Bool)
  | setProxyPeerConnectionsEnabled (enabled : Bool)
  | setChokingAlgorithm (mode : ChokingAlgorithm)
  | setSeedChokingAlgorithm (mode : SeedChokingAlgorithm)
  | setIPFilteringEnabled (enabled : Bool)
  | setIPFilterFile (path : String)
  | setAnnounceToAllTrackers (val : Bool)
  | setAnnounceToAllTiers (val : Bool)
  | setDiskCacheSize (size : Int)
  | setDiskCacheTTL (ttl : Int)
  | setUseOSCache (use : Bool)
  | setGuidedReadCacheEnabled (enabled : Bool)
  | setCoalesceReadWriteEnabled (enabled : Bool)
  | setSuggestMode (mode : Bool)
  | setSendBufferWatermark (value : Int)
  | setSendBufferLowWatermark (value : Int)
  | setSendBufferWatermarkFactor (value : Int)
  | setAnonymousModeEnabled (enabled : Bool)
  | setQueueingSystemEnabled (enabled : Bool)
  | setMaxActiveDownloads (limit : Int)
  | setMaxActiveUploads (limit : Int)
  | setMaxActiveTorrents (limit : Int)
  | setIgnoreSlowTorrentsForQueueing (ignore : Bool)
  | setDownloadRateForSlowTorrents (rateInKibiBytes : Int)
  | setUploadRateForSlowTorrents (rateInKibiBytes : Int)
  | setSlowTorrentsInactivityTimer (timeInSeconds : Int)
  | setOutgoingPortsMin (min : Int)
  | setOutgoingPortsMax (max : Int)
  | setIgnoreLimitsOnLAN (ignore : Bool)
  | setIncludeOverheadInLimits (includes : Bool)
  | setAnnounceIP (ip : String)
  | setSuperSeedingEnabled (enabled : Bool)
  | setMaxConnections (max : Int)
  | setMaxHalfOpenConnections (max : Int)
  | setMaxUploads (max : Int)
  | setBTProtocol (protocol : Int)
  | setUTPRateLimited (limited : Bool)
  | setUtpMixedMode (mode : MixedModeAlgorithm)
  | setMultiConnectionsPerIpEnabled (enabled : Bool)
  | setTrackerFilteringEnabled (enabled : Bool)
  | setPort (value : Int)
  | setUseRandomPort (value : Bool)
  | setNetworkInterface (iface : String)
  | setNetworkInterfaceAddress (address : String)
  | setIPv6Enabled (enabled : Bool)
  | setGlobalDownloadSpeedLimit (limit : Int)
  | setGlobalUploadSpeedLimit (limit : Int)
  | setAltGlobalDownloadSpeedLimit (limit : Int)
  | setAltGlobalUploadSpeedLimit (limit : Int)
  | setDownloadSpeedLimit (limit : Int)
  | setUploadSpeedLimit (limit : Int)
  | setAltGlobalSpeedLimitEnabled (enabled : Bool)

def applySetter (w : ConfiguredSession) : Setter → ConfiguredSession
  | .setAutoTMMDisabledByDefault value => setAutoTMMDisabledByDefault w value
  | .setDisableAutoTMMWhenCategoryChanged value => setDisableAutoTMMWhenCategoryChanged w value
  | .setDisableAutoTMMWhenDefaultSavePathChanged value =>
    setDisableAutoTMMWhenDefaultSavePathChanged w value
  | .setDisableAutoTMMWhenCategorySavePathChanged value =>
    setDisableAutoTMMWhenCategorySavePathChanged w value
  | .setPeXEnabled enabled => setPeXEnabled w enabled
  | .setAddTorrentPaused value => setAddTorrentPaused w value
  | .setCreateTorrentSubfolder value => setCreateTorrentSubfolder w value
  | .setTrackerEnabled enabled => setTrackerEnabled w enabled
  | .setRefreshInterval value => setRefreshInterval w value
  | .setPreallocationEnabled enabled => setPreallocationEnabled w enabled
  | .setNetworkInterfaceName name => setNetworkInterfaceName w name
  | .setMaxConnectionsPerTorrent max => setMaxConnectionsPerTorrent w max
  | .setMaxUploadsPerTorrent max => setMaxUploadsPerTorrent w max
  | .setBandwidthSchedulerEnabled enabled => setBandwidthSchedulerEnabled w enabled
  | .setAddTrackersEnabled enabled => setAddTrackersEnabled w enabled
  | .setAdditionalTrackers trackers => setAdditionalTrackers w trackers
  | .setGlobalMaxRatio ratio => setGlobalMaxRatio w ratio
  | .setGlobalMaxSeedingMinutes minutes => setGlobalMaxSeedingMinutes w minutes
  | .setDHTEnabled enabled => setDHTEnabled w enabled
  | .setLSDEnabled enabled => setLSDEnabled w enabled
  | .setEncryption state => setEncryption w state
  | .setForceProxyEnabled enabled => setForceProxyEnabled w enabled
  | .setProxyPeerConnectionsEnabled enabled => setProxyPeerConnectionsEnabled w enabled
  | .setChokingAlgorithm mode => setChokingAlgorithm w mode
  | .setSeedChokingAlgorithm mode => setSeedChokingAlgorithm w mode
  | .setIPFilteringEnabled enabled => setIPFilteringEnabled w enabled
  | .setIPFilterFile path => setIPFilterFile w path
  | .setAnnounceToAllTrackers val => setAnnounceToAllTrackers w val
  | .setAnnounceToAllTiers val => setAnnounceToAllTiers w val
  | .setDiskCacheSize size => setDiskCacheSize w size
  | .setDiskCacheTTL ttl => setDiskCacheTTL w ttl
  | .setUseOSCache use => setUseOSCache w use
  | .setGuidedReadCacheEnabled enabled => setGuidedReadCacheEnabled w enabled
  | .setCoalesceReadWriteEnabled enabled => setCoalesceReadWriteEnabled w enabled
  | .setSuggestMode mode => setSuggestMode w mode
  | .setSendBufferWatermark value => setSendBufferWatermark w value
  | .setSendBufferLowWatermark value => setSendBufferLowWatermark w value
  | .setSendBufferWatermarkFactor value => setSendBufferWatermarkFactor w value
  | .setAnonymousModeEnabled enabled => setAnonymousModeEnabled w enabled
  | .setQueueingSystemEnabled enabled => setQueueingSystemEnabled w enabled
  | .setMaxActiveDownloads limit => setMaxActiveDownloads w limit
  | .setMaxActiveUploads limit => setMaxActiveUploads w limit
  | .setMaxActiveTorrents limit => setMaxActiveTorrents w limit
  | .setIgnoreSlowTorrentsForQueueing ignore => setIgnoreSlowTorrentsForQueueing w ignore
  | .setDownloadRateForSlowTorrents rateInKibiBytes =>
    setDownloadRateForSlowTorrents w rateInKibiBytes
  | .setUploadRateForSlowTorrents rateInKibiBytes => setUploadRateForSlowTorrents w rateInKibiBytes
  | .setSlowTorrentsInactivityTimer timeInSeconds => setSlowTorrentsInactivityTimer w timeInSeconds
  | .setOutgoingPortsMin min => setOutgoingPortsMin w min
  | .setOutgoingPortsMax max => setOutgoingPortsMax w max
  | .setIgnoreLimitsOnLAN ignore => setIgnoreLimitsOnLAN w ignore
  | .setIncludeOverheadInLimits includes => setIncludeOverheadInLimits w includes
  | .setAnnounceIP ip => setAnnounceIP w ip
  | .setSuperSeedingEnabled enabled => setSuperSeedingEnabled w enabled
  | .setMaxConnections max => setMaxConnections w max
  | .setMaxHalfOpenConnections max => setMaxHalfOpenConnections w max
  | .setMaxUploads max => setMaxUploads w max
  | .setBTProtocol protocol => setBTProtocol w protocol
  | .setUTPRateLimited limited => setUTPRateLimited w limited
  | .setUtpMixedMode mode => setUtpMixedMode w mode
  | .setMultiConnectionsPerIpEnabled enabled => setMultiConnectionsPerIpEnabled w enabled
  | .setTrackerFilteringEnabled enabled => setTrackerFilteringEnabled w enabled
  | .setPort value => setPort w value
  | .setUseRandomPort value => setUseRandomPort w value
  | .setNetworkInterface iface => setNetworkInterface w iface
  | .setNetworkInterfaceAddress address => setNetworkInterfaceAddress w address
  | .setIPv6Enabled enabled => setIPv6Enabled w enabled
  | .setGlobalDownloadSpeedLimit limit => setGlobalDownloadSpeedLimit w limit
  | .setGlobalUploadSpeedLimit limit => setGlobalUploadSpeedLimit w limit
  | .setAltGlobalDownloadSpeedLimit limit => setAltGlobalDownloadSpeedLimit w limit
  | .setAltGlobalUploadSpeedLimit limit => setAltGlobalUploadSpeedLimit w limit
  | .setDownloadSpeedLimit limit => setDownloadSpeedLimit w limit
  | .setUploadSpeedLimit limit => setUploadSpeedLimit w limit
  | .setAltGlobalSpeedLimitEnabled enabled => setAltGlobalSpeedLimitEnabled w enabled

/-- Calls of setters and of the functions that add torrents, what `TorrentSession.Event` has
    beside them, and the queued configure(). -/
inductive Act where
  | set (setter : Setter)
  | event (e : Event)
  | addTorrent2 (torrentInfo : TorrentInfo) (thrown : Bool)
  | configure

def actAfter (host : Host) (w : ConfiguredSession) : Act → ConfiguredSession
  | .set setter => applySetter w setter
  | .event e => { w with session := sessionAfter w.session e }
  | .addTorrent2 torrentInfo thrown =>
    { w with session := (addTorrent2 w.session torrentInfo thrown).1 }
  | .configure => configure host w

def ActPossible (w : ConfiguredSession) : Act → Prop
  | .event e => Possible w.session.nativeSession e
  | .configure => w.deferredConfigureScheduled = true
  | _ => True

def initialFields : Fields where
  isDHTEnabled := true
  isLSDEnabled := true
  isPeXEnabled := true
  isIPFilteringEnabled := false
  isTrackerFilteringEnabled := false
  IPFilterFile := ""
  announceToAllTrackers := false
  announceToAllTiers := true
  diskCacheSize := 64
  diskCacheTTL := 60
  useOSCache := true
  guidedReadCacheEnabled := true
  coalesceReadWriteEnabled := false
  isSuggestMode := false
  sendBufferWatermark := 500
  sendBufferLowWatermark := 10
  sendBufferWatermarkFactor := 50
  isAnonymousModeEnabled := false
  maxActiveUploads := 3
  ignoreSlowTorrentsForQueueing := false
  downloadRateForSlowTorrents := 2
  uploadRateForSlowTorrents := 2
  slowTorrentsInactivityTimer := 60
  outgoingPortsMin := 0
  outgoingPortsMax := 0
  ignoreLimitsOnLAN := true
  includeOverheadInLimits := false
  announceIP := ""
  isSuperSeedingEnabled := false
  maxConnections := 500
  maxHalfOpenConnections := 20
  maxUploads := -1
  maxConnectionsPerTorrent := 100
  maxUploadsPerTorrent := -1
  btProtocol := .both
  isUTPRateLimited := true
  utpMixedMode := .tcp
  multiConnectionsPerIpEnabled := false
  additionalTrackers := ""
  globalMaxRatio := -1
  globalMaxSeedingMinutes := -1
  isAddTorrentPaused := false
  isCreateTorrentSubfolder := true
  refreshInterval := 1500
  isPreallocationEnabled := false
  globalDownloadSpeedLimit := 0
  globalUploadSpeedLimit := 0
  altGlobalDownloadSpeedLimit := 10
  altGlobalUploadSpeedLimit := 10
  isAltGlobalSpeedLimitEnabled := false
  port := 8999
  useRandomPort := false
  networkInterface := ""
  networkInterfaceName := ""
  networkInterfaceAddress := ""
  isIPv6Enabled := false
  encryption := 0
  isForceProxyEnabled := true
  isProxyPeerConnectionsEnabled := false
  chokingAlgorithm := .fixedSlots
  seedChokingAlgorithm := .fastestUpload
  isAutoTMMDisabledByDefault := true
  isDisableAutoTMMWhenCategoryChanged := false
  isDisableAutoTMMWhenDefaultSavePathChanged := true
  isDisableAutoTMMWhenCategorySavePathChanged := true
  isTrackerEnabled := false
  useProxy := false

/-- The constructor. `defaults` are the settings of libtorrent and those that only the
    constructor makes. -/
def construct (host : Host) (defaults : SettingsPack) : ConfiguredSession :=
  configure host
    { session := newSession
      fields := initialFields
      deferredConfigureScheduled := false
      IPFilteringChanged := false
      listenInterfaceChanged := true
      nativeSettings := defaults }

def configuring (host : Host) : System ConfiguredSession Act where
  start w := ∃ defaults, w = construct host defaults
  step w act t := ActPossible w act ∧ t = actAfter host w act

end SessionSettings
