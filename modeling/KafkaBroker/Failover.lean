import KafkaBroker.FailoverCore
import KafkaBroker.Replication

/-!
Failover: what the old leader acknowledged is served by the promoted follower at its
offset, through all that the promoted broker does from then on.
-/

namespace KafkaBroker

open ByteText Posix Transition

/-! The history a broker brings with it. -/

section Promotion

variable {config : StoreConfig} {state : ReplicaState}

end Promotion

end KafkaBroker
