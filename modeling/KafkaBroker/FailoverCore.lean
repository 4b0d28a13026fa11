import KafkaBroker.ReplicationCore

/-!
The follower after `promote_to_leader`: a broker on its own, over the same directory, with
the records it has taken over in front of its history.
-/

namespace KafkaBroker

end KafkaBroker
