import DistributedStorage.Raft.StateMachineSafety
import DistributedStorage.Kv.ExactlyOnce
import DistributedStorage.Kv.Snapshot
import DistributedStorage.Kv.Atomicity
import DistributedStorage.Kv.Accounts
import DistributedStorage.Kv.Sessions
import DistributedStorage.Kv.Linearizability
import DistributedStorage.Kv.DefaultReads
import DistributedStorage.Kv.RecentSessions
import DistributedStorage.Raft.NewestLeader
import DistributedStorage.Raft.Persistence
import DistributedStorage.Raft.Bookkeeping
import DistributedStorage.Raft.Availability
import DistributedStorage.Raft.ElectionTimer
import DistributedStorage.Raft.Backtracking
import DistributedStorage.Raft.FollowerCommit
import DistributedStorage.Raft.Ballots
import DistributedStorage.Raft.LeaderHint
import DistributedStorage.Raft.Positions
import DistributedStorage.Kv.Restart
import DistributedStorage.Kv.Commands
import DistributedStorage.Gateway.Retries
import DistributedStorage.Gateway.Failover
import DistributedStorage.Gateway.NotApplied
import DistributedStorage.Gateway.Preconditions
import DistributedStorage.Clients.Linearizability
import DistributedStorage.Gateway.ClusterStatus
import DistributedStorage.Gateway.Revalidation
import DistributedStorage.Training.Descent
import DistributedStorage.Training.Rounds
import DistributedStorage.Training.Recovery
import DistributedStorage.Training.Ownership
import DistributedStorage.Training.Worker
import DistributedStorage.Files.Versions
import DistributedStorage.Files.Framing
import DistributedStorage.Files.CacheCoherence
import DistributedStorage.Files.CacheHits
import DistributedStorage.Files.CacheFrames
import DistributedStorage.Files.LockedWrites
import DistributedStorage.Files.LockLifetime
import DistributedStorage.Replication.Convergence
import DistributedStorage.Replication.CloseSafety
import DistributedStorage.Replication.FailedCloses
import DistributedStorage.Replication.OwnAnswers
import DistributedStorage.Replication.CreateOnce
import DistributedStorage.Replication.ClientStub
import DistributedStorage.Replication.RaftOpens
import DistributedStorage.Raft.Isolation
