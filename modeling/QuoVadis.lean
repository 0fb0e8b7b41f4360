import QuoVadis.Kernel.Task
import QuoVadis.Kernel.Group
import QuoVadis.Kernel.GroupThread
import QuoVadis.Kernel.MpiLifetime
import QuoVadis.Kernel.CantorPairing
import QuoVadis.Kernel.LruIdeal
import QuoVadis.Kernel.Bbuff
import QuoVadis.Kernel.BbuffContent
import QuoVadis.Kernel.PortDiscovery
import QuoVadis.Kernel.Devices
import QuoVadis.Kernel.RmiBounds
import QuoVadis.Kernel.RmiLoop
import QuoVadis.Kernel.PackedSpread
import QuoVadis.Kernel.CloseMapping
import QuoVadis.Kernel.CloseQuality
import QuoVadis.Kernel.Coloring
import QuoVadis.Kernel.RequestedPiece
import QuoVadis.Kernel.ObjectCounts
import QuoVadis.Kernel.ThreadScopes
import QuoVadis.Kernel.Isolation
import QuoVadis.Kernel.TaskClients
import QuoVadis.Kernel.IntrinsicScopes
import QuoVadis.Kernel.Startup
import QuoVadis.Kernel.SessionDir
import QuoVadis.Kernel.NestedResources
import QuoVadis.Kernel.DisableSmt
import QuoVadis.Kernel.Pthreads
import QuoVadis.Kernel.BoundScopes
import QuoVadis.Kernel.ClientTopology
import QuoVadis.Kernel.MpiSplit
