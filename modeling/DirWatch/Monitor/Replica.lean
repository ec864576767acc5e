import DirWatch.Monitor.Basic
import DirWatch.Snapshot.Diff

namespace DirWatch

-- The snapshot that the receiver of a watch's notices was given, with every reported change made to it.
structure Replica where
  snapshot : Snapshot
  failure : Option MonitorError
deriving DecidableEq, Repr

namespace Replica

def start : Replica := ⟨.empty .empty, none⟩

def take (m : Replica) : Notice → Replica
  | .registered _ s => { m with snapshot := s }
  | .registrationFailed _ e | .monitoringFailed _ e => { m with failure := some e }
  | .changed _ changes => { m with snapshot := m.snapshot.replayAll changes }

end Replica

end DirWatch
