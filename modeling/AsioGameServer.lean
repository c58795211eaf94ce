import AsioGameServer.Lib.WhileLoop
import AsioGameServer.Lib.Transition
import AsioGameServer.Lib.Outcome
import AsioGameServer.Packet
import AsioGameServer.Session.Read.Drain
import AsioGameServer.Session.Read.Delivery
import AsioGameServer.Session.Read.Bounds
import AsioGameServer.Session.Write.Stream
import AsioGameServer.Session.Write.Balance
import AsioGameServer.Mysql.Leak
import AsioGameServer.Lib.Roster.Invariants
import AsioGameServer.World.Membership
import AsioGameServer.World.Liveness
import AsioGameServer.World.BackPointer
import AsioGameServer.World.Bracketing
import AsioGameServer.World.Admission
import AsioGameServer.World.Capacity
import AsioGameServer.World.Reaping
import AsioGameServer.Mysql.Accounting
import AsioGameServer.FlatBuffers.Encoding
import AsioGameServer.Channel.Views
import AsioGameServer.Asio.Bijection
import AsioGameServer.Login.Registration
import AsioGameServer.Component.Removal
import AsioGameServer.Component.LifeCycle
import AsioGameServer.Component.Tags
import AsioGameServer.BehaviorTree.Soundness
import AsioGameServer.Monster.Respawn
import AsioGameServer.Monster.Holding
import AsioGameServer.Monster.Vector
import AsioGameServer.Monster.Patrol
import AsioGameServer.Monster.Waypoint
import AsioGameServer.Monster.Notice
import AsioGameServer.Monster.Spawn
import AsioGameServer.PrevTick
import AsioGameServer.Status.Indexing
import AsioGameServer.World.Places
import AsioGameServer.World.Warp
import AsioGameServer.Status.Experience
import AsioGameServer.Character.Stopping
import AsioGameServer.Mysql.Readers
import AsioGameServer.ItemManager.Inventory
import AsioGameServer.Component.Search
import AsioGameServer.Component.Mirroring
import AsioGameServer.Session.Ping
import AsioGameServer.World.Numbering
import AsioGameServer.Channel.Movement
import AsioGameServer.Dungeon.Ledger
import AsioGameServer.Dungeon.Experience
import AsioGameServer.Dungeon.Tracking
import AsioGameServer.Login.Identity
import AsioGameServer.World.Idling
import AsioGameServer.World.Staying
import AsioGameServer.World.Whereabouts
import AsioGameServer.Tables.Population
import AsioGameServer.Tables.Hits
