import Scrinium.ChangeFeed
import Scrinium.Checkpoint
import Scrinium.Convergent
import Scrinium.CreateRace
import Scrinium.CutBlob
import Scrinium.Documents
import Scrinium.BlockPlaces
import Scrinium.EditCarries
import Scrinium.Ingester
import Scrinium.InitOverwrite
import Scrinium.LeaseExclusion
import Scrinium.Ledger
import Scrinium.LiveData
import Scrinium.Liveness
import Scrinium.Markers
import Scrinium.NameBinding
import Scrinium.PathIndex
import Scrinium.ProvenanceGraph
import Scrinium.PublishOrder
import Scrinium.Rebuilders
import Scrinium.Registry
import Scrinium.Rekey
import Scrinium.Retention
import Scrinium.RollbackRefusal
import Scrinium.ScrubCoverage
import Scrinium.SweepRace
import Scrinium.VerifiedReads
import Scrinium.VfsFiles
import Scrinium.VfsRoutes
import Scrinium.ViewWinners
import Scrinium.WriteLimits
