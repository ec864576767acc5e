import DirWatch.Path.Basic
import DirWatch.Time.Instant

namespace DirWatch

structure Entry where
  path : Path
  isDirectory : Bool
  written : Option Instant
  size : UInt64
deriving DecidableEq, Repr

namespace Entry

instance : Ord Entry := ⟨compareOn Entry.path⟩

-- Two entries of one path that are worth a report. What changed inside a directory is told by its
-- entries, so a directory never differs from itself.
def differs (a b : Entry) : Bool :=
  if a.isDirectory != b.isDirectory then true
  else if a.isDirectory then false
  else a.written != b.written || a.size != b.size

theorem differs_self (a : Entry) : a.differs a = false := by
  simp [differs]

theorem differs_comm (a b : Entry) : a.differs b = b.differs a := by
  cases ha : a.isDirectory <;> cases hb : b.isDirectory <;>
    simp [differs, ha, hb, bne_comm]

end Entry

end DirWatch
