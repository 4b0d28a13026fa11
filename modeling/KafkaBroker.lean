import KafkaBroker.Consumer
import KafkaBroker.Groups
import KafkaBroker.Servers
import KafkaBroker.CatchUp
import KafkaBroker.Offsets
import KafkaBroker.Fetching
import KafkaBroker.History
import KafkaBroker.Naming
import KafkaBroker.Progress
import KafkaBroker.Delivery
import KafkaBroker.Decoding
import KafkaBroker.Failures
import KafkaBroker.Clients
import KafkaBroker.Sending
import KafkaBroker.Scanning
import KafkaBroker.Checksum
import KafkaBroker.Blocking
import KafkaBroker.Rebuilding
import KafkaBroker.Interleaving
import KafkaBroker.Failover
import KafkaBroker.Threads
import KafkaBroker.Wire
import KafkaBroker.Report
import KafkaBroker.ExactlyOnce
import KafkaBroker.Restarting
import KafkaBroker.Descriptors
