import QtPlayer.Session.SettingsPack
import QtPlayer.Session.TorrentSession

/- session.h and session.cpp: the options of Session, and how configure() writes them into the
   settings of the libtorrent session. The branches of Windows and of older versions of
   libtorrent are left out, and so are the peer classes. -/
namespace SessionSettings
open TorrentSession KeyedWrites SettingsPacks

/- The options. -/

inductive ChokingAlgorithm where
  | fixedSlots
  | rateBased
  deriving DecidableEq

inductive SeedChokingAlgorithm where
  | roundRobin
  | fastestUpload
  | antiLeech
  deriving DecidableEq

inductive MixedModeAlgorithm where
  | tcp
  | proportional
  deriving DecidableEq

inductive BTProtocol where
  | both
  | tcp
  | utp
  deriving DecidableEq

/-- What the session keeps beside `TorrentSession.Session`. -/
structure Fields where
  isDHTEnabled : Bool
  isLSDEnabled : Bool
  isPeXEnabled : Bool
  isIPFilteringEnabled : Bool
  isTrackerFilteringEnabled : Bool
  IPFilterFile : String
  announceToAllTrackers : Bool
  announceToAllTiers : Bool
  diskCacheSize : Int
  diskCacheTTL : Int
  useOSCache : Bool
  guidedReadCacheEnabled : Bool
  coalesceReadWriteEnabled : Bool
  isSuggestMode : Bool
  sendBufferWatermark : Int
  sendBufferLowWatermark : Int
  sendBufferWatermarkFactor : Int
  isAnonymousModeEnabled : Bool
  maxActiveUploads : Int
  ignoreSlowTorrentsForQueueing : Bool
  downloadRateForSlowTorrents : Int
  uploadRateForSlowTorrents : Int
  slowTorrentsInactivityTimer : Int
  outgoingPortsMin : Int
  outgoingPortsMax : Int
  ignoreLimitsOnLAN : Bool
  includeOverheadInLimits : Bool
  announceIP : String
  isSuperSeedingEnabled : Bool
  maxConnections : Int
  maxHalfOpenConnections : Int
  maxUploads : Int
  maxConnectionsPerTorrent : Int
  maxUploadsPerTorrent : Int
  btProtocol : BTProtocol
  isUTPRateLimited : Bool
  utpMixedMode : MixedModeAlgorithm
  multiConnectionsPerIpEnabled : Bool
  additionalTrackers : String
  globalMaxRatio : Rat
  globalMaxSeedingMinutes : Int
  isAddTorrentPaused : Bool
  isCreateTorrentSubfolder : Bool
  refreshInterval : Nat
  isPreallocationEnabled : Bool
  globalDownloadSpeedLimit : Int
  globalUploadSpeedLimit : Int
  altGlobalDownloadSpeedLimit : Int
  altGlobalUploadSpeedLimit : Int
  isAltGlobalSpeedLimitEnabled : Bool
  port : Int
  useRandomPort : Bool
  networkInterface : String
  networkInterfaceName : String
  networkInterfaceAddress : String
  isIPv6Enabled : Bool
  encryption : Int
  isForceProxyEnabled : Bool
  isProxyPeerConnectionsEnabled : Bool
  chokingAlgorithm : ChokingAlgorithm
  seedChokingAlgorithm : SeedChokingAlgorithm
  isAutoTMMDisabledByDefault : Bool
  isDisableAutoTMMWhenCategoryChanged : Bool
  isDisableAutoTMMWhenDefaultSavePathChanged : Bool
  isDisableAutoTMMWhenCategorySavePathChanged : Bool
  isTrackerEnabled : Bool
  useProxy : Bool

/- The getters that do more than read a field. -/

def globalDownloadSpeedLimit (f : Fields) : Int := f.globalDownloadSpeedLimit * 1024
def globalUploadSpeedLimit (f : Fields) : Int := f.globalUploadSpeedLimit * 1024
def altGlobalDownloadSpeedLimit (f : Fields) : Int := f.altGlobalDownloadSpeedLimit * 1024
def altGlobalUploadSpeedLimit (f : Fields) : Int := f.altGlobalUploadSpeedLimit * 1024

def diskCacheSize (f : Fields) : Int := min f.diskCacheSize 4096

def randomPort : Int := 10004

def port (f : Fields) : Int := if f.useRandomPort then randomPort else f.port

/- What configure() writes. -/

inductive NetworkLayerProtocol where
  | IPv4Protocol
  | IPv6Protocol
  deriving DecidableEq

/-- `isNull` is that of QHostAddress, `addressEntries` are the addresses of the network
    interface of a name if it is valid, `isV6` that of libtorrent's address if it parses. -/
structure Host where
  isNull : String → Bool
  addressEntries : String → Option (List (String × NetworkLayerProtocol))
  isV6 : String → Option Bool

def suitableIPs (listenIPv6 : Bool) (ifaceAddr : String) :
    List (String × NetworkLayerProtocol) → List String
  | [] => []
  | (ipString, protocol) :: rest =>
    if (!listenIPv6 && protocol = .IPv6Protocol) || (listenIPv6 && protocol = .IPv4Protocol) then
      suitableIPs listenIPv6 ifaceAddr rest
    else if ifaceAddr ≠ "" then
      if ifaceAddr = ipString then [ipString] else suitableIPs listenIPv6 ifaceAddr rest
    else ipString :: suitableIPs listenIPv6 ifaceAddr rest

def getListeningIPs (host : Host) (f : Fields) : List String :=
  if f.networkInterfaceAddress ≠ "" ∧ host.isNull f.networkInterfaceAddress then ["127.0.0.1"]
  else if f.networkInterface = "" then
    if f.networkInterfaceAddress ≠ "" then [f.networkInterfaceAddress] else [""]
  else
    match host.addressEntries f.networkInterface with
    | none => ["127.0.0.1"]
    | some addresses =>
      let IPs := suitableIPs f.isIPv6Enabled f.networkInterfaceAddress addresses
      if IPs = [] then ["127.0.0.1"] else IPs

def endpoint (ip : String) (isV6 : Bool) (port : Nat) : String :=
  (if isV6 then "[" ++ ip ++ "]" else ip) ++ ":" ++ port.repr

/-- The loop of configure over the addresses: the first one that libtorrent can parse. -/
def listenInterfaces (host : Host) (port : Nat) : List String → Option String
  | [] => none
  | ip :: rest =>
    if ip = "" then some (endpoint "0.0.0.0" false port)
    else
      match host.isV6 ip with
      | some isV6 => some (endpoint ip isV6 port)
      | none => listenInterfaces host port rest

def toUShort (n : Int) : Nat := (n % 2 ^ 16).toNat

def listeningWrites (host : Host) (f : Fields) : List Setting :=
  let port := toUShort (port f)
  .int .maxRetryPortBind (port - port) ::
    ((listenInterfaces host port (getListeningIPs host f)).toList.map
      (Setting.str .listenInterfaces) ++ [.str .outgoingInterfaces f.networkInterface])

def bandwidthLimits (f : Fields) : List Setting :=
  [.int .downloadRateLimit
      (if f.isAltGlobalSpeedLimitEnabled then altGlobalDownloadSpeedLimit f
        else globalDownloadSpeedLimit f),
    .int .uploadRateLimit
      (if f.isAltGlobalSpeedLimitEnabled then altGlobalUploadSpeedLimit f
        else globalUploadSpeedLimit f)]

def queueLimits (s : Session) : List Setting :=
  [.int .activeDownloads (if -1 < s.maxActiveDownloads then s.maxActiveDownloads + s.extraLimit
      else s.maxActiveDownloads),
    .int .activeLimit (if -1 < s.maxActiveTorrents then s.maxActiveTorrents + s.extraLimit
      else s.maxActiveTorrents)]

def encryptionPolicy (encryption : Int) : Int :=
  if encryption = 0 then peEnabled else if encryption = 1 then peForced else peDisabled

def transferWrites (f : Fields) : List Setting :=
  [.int .allowedEncLevel peRc4,
    .bool .preferRc4 true,
    .int .outEncPolicy (encryptionPolicy f.encryption),
    .int .inEncPolicy (encryptionPolicy f.encryption),
    .bool .forceProxy (if f.useProxy then f.isForceProxyEnabled else false),
    .bool .announceToAllTrackers f.announceToAllTrackers,
    .bool .announceToAllTiers f.announceToAllTiers,
    .int .cacheSize (if -1 < diskCacheSize f then diskCacheSize f * 64 else -1),
    .int .cacheExpiry f.diskCacheTTL,
    .int .diskIoReadMode (if f.useOSCache then enableOsCache else disableOsCache),
    .int .diskIoWriteMode (if f.useOSCache then enableOsCache else disableOsCache),
    .bool .guidedReadCache f.guidedReadCacheEnabled,
    .bool .coalesceReads f.coalesceReadWriteEnabled,
    .bool .coalesceWrites f.coalesceReadWriteEnabled,
    .int .suggestMode (if f.isSuggestMode then suggestReadCache else noPieceSuggestions),
    .int .sendBufferWatermark (f.sendBufferWatermark * 1024),
    .int .sendBufferLowWatermark (f.sendBufferLowWatermark * 1024),
    .int .sendBufferWatermarkFactor f.sendBufferWatermarkFactor,
    .bool .anonymousMode f.isAnonymousModeEnabled,
    .bool .strictEndGameMode true]

def queueingWrites (s : Session) (f : Fields) : List Setting :=
  if s.isQueueingEnabled then
    queueLimits s ++
      [.int .activeSeeds f.maxActiveUploads,
        .bool .dontCountSlowTorrents f.ignoreSlowTorrentsForQueueing,
        .int .inactiveDownRate (f.downloadRateForSlowTorrents * 1024),
        .int .inactiveUpRate (f.uploadRateForSlowTorrents * 1024),
        .int .autoManageStartup f.slowTorrentsInactivityTimer]
  else [.int .activeDownloads (-1), .int .activeSeeds (-1), .int .activeLimit (-1)]

def networkWrites (f : Fields) : List Setting :=
  [.int .activeTrackerLimit (-1),
    .int .activeDhtLimit (-1),
    .int .activeLsdLimit (-1),
    .int .alertQueueSize (2147483647 / 2),
    .int .outgoingPort f.outgoingPortsMin,
    .int .numOutgoingPorts (f.outgoingPortsMax - f.outgoingPortsMin + 1),
    .bool .rateLimitIpOverhead f.includeOverheadInLimits,
    .str .announceIp f.announceIP,
    .bool .strictSuperSeeding f.isSuperSeedingEnabled,
    .int .connectionsLimit f.maxConnections,
    .int .unchokeSlotsLimit f.maxUploads,
    .bool .enableIncomingTcp (decide (f.btProtocol ≠ .utp)),
    .bool .enableOutgoingTcp (decide (f.btProtocol ≠ .utp)),
    .bool .enableIncomingUtp (decide (f.btProtocol ≠ .tcp)),
    .bool .enableOutgoingUtp (decide (f.btProtocol ≠ .tcp)),
    .int .mixedModeAlgorithm (match f.utpMixedMode with
      | .tcp => preferTcp
      | .proportional => peerProportional),
    .bool .allowMultipleConnectionsPerIp f.multiConnectionsPerIpEnabled,
    .bool .applyIpFilterToTrackers f.isTrackerFilteringEnabled,
    .bool .enableDht f.isDHTEnabled] ++
  (if f.isDHTEnabled then
    [.str .dhtBootstrapNodes ("dht.libtorrent.org:25401,router.bittorrent.com:6881," ++
      "router.utorrent.com:6881,dht.transmissionbt.com:6881,dht.aelitis.com:6881")]
  else []) ++
  [.bool .enableLsd f.isLSDEnabled,
    .int .chokingAlgorithm (match f.chokingAlgorithm with
      | .fixedSlots => fixedSlotsChoker
      | .rateBased => rateBasedChoker),
    .int .seedChokingAlgorithm (match f.seedChokingAlgorithm with
      | .roundRobin => roundRobin
      | .fastestUpload => fastestUpload
      | .antiLeech => antiLeech)]

/- The session with its options. -/

/-- `nativeSettings` are the settings of the libtorrent session but for the two limits of the
    queue, which `session` keeps; its own entries for these are not looked at. -/
structure ConfiguredSession where
  session : Session
  fields : Fields
  deferredConfigureScheduled : Bool
  IPFilteringChanged : Bool
  listenInterfaceChanged : Bool
  nativeSettings : SettingsPack

def getSettings (w : ConfiguredSession) : SettingsPack :=
  { w.nativeSettings with
    ints := fun
      | .activeDownloads => w.session.nativeSession.activeDownloads
      | .activeLimit => w.session.nativeSession.activeLimit
      | k => w.nativeSettings.ints k }

def applySettings (w : ConfiguredSession) (p : SettingsPack) : ConfiguredSession :=
  { w with
    session := { w.session with nativeSession := { w.session.nativeSession with
      activeDownloads := p.ints .activeDownloads
      activeLimit := p.ints .activeLimit } }
    nativeSettings := p }

def configureWrites (host : Host) (w : ConfiguredSession) : List Setting :=
  (if w.listenInterfaceChanged then listeningWrites host w.fields else []) ++
    (bandwidthLimits w.fields ++ (transferWrites w.fields ++
      (queueingWrites w.session w.fields ++ networkWrites w.fields)))

def configure (host : Host) (w : ConfiguredSession) : ConfiguredSession :=
  { applySettings w (setAll pack (getSettings w) (configureWrites host w)) with
    listenInterfaceChanged := false
    IPFilteringChanged := false
    deferredConfigureScheduled := false }

/-- One call of configure is queued while the flag is up. -/
def configureDeferred (w : ConfiguredSession) : ConfiguredSession :=
  { w with deferredConfigureScheduled := true }

def configureListeningInterface (w : ConfiguredSession) : ConfiguredSession :=
  configureDeferred { w with listenInterfaceChanged := true }

def applyBandwidthLimits (w : ConfiguredSession) : ConfiguredSession :=
  applySettings w (setAll pack (getSettings w) (bandwidthLimits w.fields))

end SessionSettings
