import PeerBridge.Bridge.Listings
import PeerBridge.Bridge.Refresh
import PeerBridge.Bridge.Subscribe
import PeerBridge.Endpoint.Ownership
import PeerBridge.Harness.Encoding
import PeerBridge.Hints.Wake
import PeerBridge.Install.Units
import PeerBridge.Memory.Adoption
import PeerBridge.Memory.Frames
import PeerBridge.Memory.Pages
import PeerBridge.Memory.Replacement
import PeerBridge.Memory.Reserve
import PeerBridge.Memory.Retention
import PeerBridge.Memory.Scoping
import PeerBridge.Memory.SearchIndex
import PeerBridge.Notify.Agreement
import PeerBridge.Notify.HealthFile
import PeerBridge.Notify.Legacy
import PeerBridge.Notify.MemoryWatch
import PeerBridge.Notify.ParticipantLock
import PeerBridge.Service.Jobs
