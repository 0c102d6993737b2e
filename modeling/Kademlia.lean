import Kademlia.ByteSource.ChaCha
import Kademlia.Config.File
import Kademlia.Config.Json
import Kademlia.KeyRange.Json
import Kademlia.Space.Run
import Kademlia.Proofs.Address
import Kademlia.Proofs.Generation
import Kademlia.Proofs.KeyRange
import Kademlia.Proofs.KeyRange.Ranking
import Kademlia.Proofs.Space.Bins
import Kademlia.Proofs.Space.Promises
import Kademlia.Proofs.KeyRange.Members
import Kademlia.Proofs.Space.Partition
import Kademlia.Proofs.Proximity.Metric
import Kademlia.Proofs.Space.Neighbourhood
import Kademlia.Proofs.Generation.Uniform
import Kademlia.Proofs.Space.Progress
import Kademlia.Proofs.KeyRange.Laminar
import Kademlia.Proofs.Json.RoundTrip
import Kademlia.Proofs.Generation.Script
import Kademlia.Proofs.Config.File
import Kademlia.Proofs.Proximity.Decision
import Kademlia.Proofs.Ranking.Closest
import Kademlia.Proofs.Generation.Reach
import Kademlia.Proofs.Address.Digits
import Kademlia.Proofs.Ranking.Translation
import Kademlia.Proofs.Address.Spelling
import Kademlia.Proofs.ByteSource.Words
import Kademlia.Proofs.Generation.Words
import Kademlia.Proofs.ByteSource.Parts
import Kademlia.Proofs.Generation.Prefix
import Kademlia.Proofs.Space.Log
import Kademlia.Proofs.Checked.Generation
import Kademlia.Proofs.Address.Flips
import Kademlia.Proofs.ByteSource.Stream
