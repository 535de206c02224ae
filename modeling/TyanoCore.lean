import TyanoCore.Run
import TyanoCore.Basic
import TyanoCore.Party
import TyanoCore.PartyInvariant
import TyanoCore.PartyRun
import TyanoCore.Trade
import TyanoCore.TradeInvariant
import TyanoCore.TradeRun
import TyanoCore.Scheduler
import TyanoCore.ReleaseInfo
import TyanoCore.ReleaseInvariant
import TyanoCore.ReleaseRun
import TyanoCore.World
import TyanoCore.Query
import TyanoCore.Update
import TyanoCore.MoveItem
import TyanoCore.Forest
import TyanoCore.ForestUpdate
import TyanoCore.Units
import TyanoCore.MovePerform
import TyanoCore.MoveConservation
import TyanoCore.FiniteWorld
import TyanoCore.Walk
import TyanoCore.Within
import TyanoCore.Parents
import TyanoCore.Money
import TyanoCore.Coins
import TyanoCore.Payment
import TyanoCore.Handout
import TyanoCore.Change
import TyanoCore.Exchange
import TyanoCore.MoveRefused
import TyanoCore.TradeItems
import TyanoCore.Decay
import TyanoCore.DecayTiming
import TyanoCore.DecayBooks
import TyanoCore.FileLoader
import TyanoCore.NodeGrammar
import TyanoCore.CachedReading
import TyanoCore.NodeRoundTrip
import TyanoCore.Nesting
import TyanoCore.NestingRun
import TyanoCore.ContainerWeight
import TyanoCore.TileThings
import TyanoCore.TileExchange
import TyanoCore.TileRun
import TyanoCore.TileStack
import TyanoCore.TileFlags
import TyanoCore.Position
import TyanoCore.Spectators
import TyanoCore.SpectatorIndex
import TyanoCore.SpectatorCache
import TyanoCore.Viewers
import TyanoCore.LevelSearch
import TyanoCore.TileSearch
import TyanoCore.SkipRuns
import TyanoCore.MapDescription
import TyanoCore.MapUpdate
import TyanoCore.IdMap
import TyanoCore.CreatureWorld
import TyanoCore.MapLayer
import TyanoCore.TileIndex
import TyanoCore.SchedulerRun
import TyanoCore.ThinkChain
import TyanoCore.WaitingList
import TyanoCore.Bytes
import TyanoCore.Layout
import TyanoCore.Loop
import TyanoCore.RoundCipher
import TyanoCore.Xtea
import TyanoCore.Framing
import TyanoCore.OrderedTree
import TyanoCore.PropStream
import TyanoCore.StoredItem
import TyanoCore.MapItems
import TyanoCore.AttributeStream
import TyanoCore.HouseItems
import TyanoCore.HouseTile
import TyanoCore.PlayerItems
import TyanoCore.PlayerRelogin
import TyanoCore.Condition
import TyanoCore.ConditionStream
import TyanoCore.ConditionReload
import TyanoCore.ConditionRelogin
import TyanoCore.Experience
import TyanoCore.LoginAttempts
import TyanoCore.Frontier
import TyanoCore.PathNodes
import TyanoCore.PathRoute
import TyanoCore.PathTo
import TyanoCore.PathCost
import TyanoCore.PathMatching
import TyanoCore.PathBound
import TyanoCore.TileEvents
import TyanoCore.Spawn
import TyanoCore.RunningSums
import TyanoCore.Checksum
import TyanoCore.OutputPool
import TyanoCore.Teardown
import TyanoCore.ConditionBonuses
import TyanoCore.Equipment
import TyanoCore.TradeMove
import TyanoCore.CreatureView
import TyanoCore.DigitalLine
import TyanoCore.SightLine
import TyanoCore.SightBox
import TyanoCore.SpectatorBounds
import TyanoCore.ContainerIteration
import TyanoCore.RemoveItems
import TyanoCore.TileLookup
import TyanoCore.TileOrder
import TyanoCore.Chain
import TyanoCore.Forwarding
import TyanoCore.ForwardingChain
import TyanoCore.RemoveWhole
import TyanoCore.RemoveScan
import TyanoCore.RemoveRun
import TyanoCore.RemoveReturns
import TyanoCore.RemoveLeaving
import TyanoCore.RemoveAllOrNothing
import TyanoCore.Ladder
import TyanoCore.Training
import TyanoCore.TrainingLoss
import TyanoCore.Residues
import TyanoCore.Rsa
import TyanoCore.PropsBuffer
import TyanoCore.ConditionBounds
import TyanoCore.CombatArea
import TyanoCore.AreaSymmetry
import TyanoCore.AreaTiles
import TyanoCore.AccessList
import TyanoCore.AccessListVerdict
import TyanoCore.BlobReading
import TyanoCore.HouseLoader
import TyanoCore.CountedLoop
import TyanoCore.Neighbors
import TyanoCore.PathPool
import TyanoCore.ReplaceString
import TyanoCore.BlockHash
import TyanoCore.Md5
import TyanoCore.Sha1
import TyanoCore.Encryption
import TyanoCore.QueueHistory
import TyanoCore.DispatcherThread
import TyanoCore.DbInsert
import TyanoCore.Summons
import TyanoCore.SummonsDeath
import TyanoCore.SummonsRun
import TyanoCore.OpenContainers
import TyanoCore.LuaTimers
import TyanoCore.ConnectionInput
import TyanoCore.HouseRent
import TyanoCore.AbsentOwners
import TyanoCore.PrivateChannels
