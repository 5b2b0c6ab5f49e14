/-!
Limits on the size of single transfers.
-/

namespace Conduit

/-- The largest number of bytes that one transfer moves, per direction: never zero. -/
structure ChunkLimits where
  read : Nat := 65536
  write : Nat := 65536
  read_pos : 0 < read := by omega
  write_pos : 0 < write := by omega
  deriving DecidableEq

namespace ChunkLimits

instance : Inhabited ChunkLimits := ⟨{}⟩

/-- The limits with another one for reads; zero counts as one. -/
def withRead (l : ChunkLimits) (n : Nat) : ChunkLimits :=
  { l with read := max n 1, read_pos := by omega }

/-- The limits with another one for writes; zero counts as one. -/
def withWrite (l : ChunkLimits) (n : Nat) : ChunkLimits :=
  { l with write := max n 1, write_pos := by omega }

end ChunkLimits

end Conduit
