import WillItRecycle.AccountScreens
import WillItRecycle.AppClient
import WillItRecycle.CallbackFields
import WillItRecycle.ClaimOutcomes
import WillItRecycle.ClientRefinement
import WillItRecycle.CompleteRecords
import WillItRecycle.CompleteView
import WillItRecycle.CounterRange
import WillItRecycle.DailyReward
import WillItRecycle.Dashboard
import WillItRecycle.DisplayNames
import WillItRecycle.EventRun
import WillItRecycle.FirebaseNode
import WillItRecycle.GameScreen
import WillItRecycle.GameState
import WillItRecycle.GameTab
import WillItRecycle.HalfApplied
import WillItRecycle.InventoryMirror
import WillItRecycle.InventoryRows
import WillItRecycle.LabelHistory
import WillItRecycle.LandInFlight
import WillItRecycle.LandList
import WillItRecycle.LandScreens
import WillItRecycle.LastMatch
import WillItRecycle.LastWindow
import WillItRecycle.LeaderboardQuery
import WillItRecycle.LeavesLedger
import WillItRecycle.LeavesScreens
import WillItRecycle.LimitedWindow
import WillItRecycle.Linearizability
import WillItRecycle.LoadInFlight
import WillItRecycle.LoadOrder
import WillItRecycle.LoadedLists
import WillItRecycle.ManualEntryScreen
import WillItRecycle.NodeContents
import WillItRecycle.OccupiedCells
import WillItRecycle.OneRewardPerDay
import WillItRecycle.OpenDashboard
import WillItRecycle.Overlap
import WillItRecycle.PathTree
import WillItRecycle.PlacementLists
import WillItRecycle.PlayerRuns
import WillItRecycle.Purchase
import WillItRecycle.PurchaseItem
import WillItRecycle.QueryFilter
import WillItRecycle.QueryIndex
import WillItRecycle.ReadCallback
import WillItRecycle.ReadOutcomes
import WillItRecycle.RecordCreation
import WillItRecycle.RecycleHistory
import WillItRecycle.RedeemHistory
import WillItRecycle.RedeemOverflow
import WillItRecycle.RunHistory
import WillItRecycle.SearchTransparency
import WillItRecycle.SequentialRefinement
import WillItRecycle.SerialFrame
import WillItRecycle.SerialRun
import WillItRecycle.Session
import WillItRecycle.SessionRun
import WillItRecycle.ShortStyle
import WillItRecycle.ShownQuantities
import WillItRecycle.SignIn
import WillItRecycle.SignInIsolation
import WillItRecycle.SignInLoad
import WillItRecycle.SortedRows
import WillItRecycle.StartedCallbacks
import WillItRecycle.StoreScreen
import WillItRecycle.TabRefinement
import WillItRecycle.TabRuns
import WillItRecycle.TabScreens
import WillItRecycle.TabSerial
import WillItRecycle.TaggedView
import WillItRecycle.TopRanked
import WillItRecycle.TrapFreeRun
import WillItRecycle.UnitsInFlight
import WillItRecycle.UserRecord
import WillItRecycle.ViewChanges
import WillItRecycle.ViewProcessor
import WillItRecycle.WalletInFlight
import WillItRecycle.WordOrder
import WillItRecycle.DigitWords
import WillItRecycle.HistoryOrder
import WillItRecycle.LatestWrites
import WillItRecycle.WriteTree
import WillItRecycle.PendingWrites
import WillItRecycle.OwnWrites
