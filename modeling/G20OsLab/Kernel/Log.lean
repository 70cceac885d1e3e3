/-
  G20OsLab.Kernel.Log

  The log of the file system (`kernel/log.c`), over the disk and the buffer
  cache.

  Processes run file system operations between `begin_op` and `end_op`; the
  last `end_op` commits.  A step is a section under `log.lock`, one disk write
  of `commit` or of `recover_from_log`, a use of a buffer under its lock, the
  recycling of a buffer, or a crash, after which the kernel boots again from
  the disk.  The cache holds any number of buffers here and a buffer without
  references can go at any time, so that the runs of the 30 buffers of
  `kernel/bio.c` are among those of the model.  Left out is the device: there
  is one disk.
-/

import Mathlib.Data.Finset.Card
import G20OsLab.Kernel.Step

namespace G20OsLab.Kernel

/-! ## Disk and buffers -/

/-- `MAXOPBLOCKS`. -/
def maxopblocks : Nat := 10

/-- `LOGBLOCKS`. -/
def logblocks : Nat := maxopblocks * 3

/-- A block of `BSIZE` bytes, as the 256 words the log header is laid over. -/
abbrev Block := Fin 256 → UInt32

abbrev Disk := UInt32 → Block

/-- `struct buf`: its data, and the references that `bpin` has taken. -/
structure Buf where
  data : Block
  refcnt : Nat

/-- Where the one thread stands that writes the log. -/
inductive CommitPc
  /-- no commit in progress -/
  | idle
  /-- in `write_log` -/
  | writeLog (tail : Nat)
  /-- in `install_trans(0)` -/
  | install (tail : Nat)
  /-- in `end_op`, after `commit` -/
  | release
  /-- in `recover_from_log`, before `read_head` -/
  | readHead
  /-- in `install_trans(1)` -/
  | redo (tail : Nat)
  deriving DecidableEq, Repr

/-- The log, the cache and the disk.  `lh` is `log.lh.block[]` up to `log.lh.n`.
    `op` says which processes are in an operation and which blocks each of them
    has logged in it. -/
structure LogState where
  disk : Disk
  cache : UInt32 → Option Buf
  outstanding : Int
  committing : Bool
  lh : List UInt32
  pc : CommitPc
  op : Fin nproc → Option (Finset UInt32)

namespace LogState

/-- What `bread` returns: the cached buffer, or a new one. -/
def buf (s : LogState) (b : UInt32) : Buf := (s.cache b).getD ⟨s.disk b, 0⟩

def setBuf (s : LogState) (b : UInt32) (buf : Buf) : LogState :=
  { s with cache := Function.update s.cache b (some buf) }

def bread (s : LogState) (b : UInt32) : LogState := s.setBuf b (s.buf b)

/-- `bwrite` of block `b` with content `data`. -/
def bwrite (s : LogState) (b : UInt32) (data : Block) : LogState :=
  { s.setBuf b { s.buf b with data := data } with disk := Function.update s.disk b data }

end LogState

/-! ## The header -/

/-- Word `k` of a block, over which `lh->block[k - 1]` is laid. -/
def Block.word (data : Block) (k : Nat) : UInt32 := if h : k < 256 then data ⟨k, h⟩ else 0

/-- The block numbers `read_head` finds; a negative count is that of an empty
    loop. -/
def headerBlocks (data : Block) : List UInt32 :=
  let n := if (data 0).toNat < 2 ^ 31 then (data 0).toNat else 0
  (List.range n).map fun k => data.word (k + 1)

/-- What `write_head` makes of the header block. -/
def headerData (lh : List UInt32) (data : Block) : Block := fun k =>
  if k.val = 0 then UInt32.ofNat lh.length else lh.getD (k.val - 1) (data k)

section Log

-- `start` is `log.start`
variable (start : UInt32)

/-- The block behind the header that holds entry `tail` of the log. -/
def logBlock (tail : Nat) : UInt32 := start + UInt32.ofNat tail + 1

def readHead (s : LogState) : LogState :=
  { s.bread start with lh := headerBlocks (s.buf start).data }

def writeHead (s : LogState) : LogState :=
  (s.bread start).bwrite start (headerData s.lh (s.buf start).data)

/-- A round of the loop of `write_log`. -/
def writeLog (s : LogState) (tail : Nat) (b : UInt32) : LogState :=
  let s := (s.bread (logBlock start tail)).bread b
  s.bwrite (logBlock start tail) (s.buf b).data

/-- A round of the loop of `install_trans`. -/
def installTrans (s : LogState) (recovering : Bool) (tail : Nat) (b : UInt32) : LogState :=
  let s := (s.bread (logBlock start tail)).bread b
  let s := s.bwrite b (s.buf (logBlock start tail)).data
  -- `bunpin(dbuf)`
  if recovering then s else s.setBuf b { s.buf b with refcnt := (s.buf b).refcnt - 1 }

/-! ## Operations -/

/-- The section of `begin_op` in which it finds room for an operation. -/
def beginOp (s : LogState) (i : Fin nproc) : Option LogState :=
  if s.committing = true ∨ s.lh.length + (s.outstanding + 1) * maxopblocks > (logblocks : Int) then
    none
  else
    some { s with outstanding := s.outstanding + 1, op := Function.update s.op i (some ∅) }

/-- The first section of `end_op`; `none` is a panic. -/
def endOp (s : LogState) (i : Fin nproc) : Option LogState :=
  let outstanding := s.outstanding - 1
  let op := Function.update s.op i none
  if s.committing = true then none
  else if outstanding = 0 then
    some { s with outstanding := outstanding, op := op, committing := true, pc := .writeLog 0 }
  else some { s with outstanding := outstanding, op := op }

/-- `log_write`; `none` is a panic. -/
def logWrite (s : LogState) (b : UInt32) : Option LogState :=
  if s.lh.length ≥ logblocks then none
  else if s.outstanding < 1 then none
  else if b ∈ s.lh then some s
  else
    let s := s.setBuf b { s.buf b with refcnt := (s.buf b).refcnt + 1 }
    some { s with lh := s.lh ++ [b] }

/-- The next step of `commit` and of the end of `end_op`, or of
    `recover_from_log`. -/
def commitStep (s : LogState) : Option LogState :=
  match s.pc with
  | .idle => none
  | .writeLog tail =>
      match s.lh[tail]? with
      | some b => some { writeLog start s tail b with pc := .writeLog (tail + 1) }
      | none =>
          -- `if (log.lh.n > 0)`
          if s.lh = [] then some { s with pc := .release }
          else some { writeHead start s with pc := .install 0 }
  | .install tail =>
      match s.lh[tail]? with
      | some b => some { installTrans start s false tail b with pc := .install (tail + 1) }
      | none => some { writeHead start { s with lh := [] } with pc := .release }
  | .release => some { s with committing := false, pc := .idle }
  | .readHead => some { readHead start s with pc := .redo 0 }
  | .redo tail =>
      match s.lh[tail]? with
      | some b => some { installTrans start s true tail b with pc := .redo (tail + 1) }
      | none => some { writeHead start { s with lh := [] } with pc := .idle }

/-! ## Steps -/

/-- The kernel boots; only the disk has survived. -/
def LogState.boot (disk : Disk) : LogState where
  disk := disk
  cache := fun _ => none
  outstanding := 0
  committing := false
  lh := []
  pc := .readHead
  op := fun _ => none

inductive LogEvent
  | beginOp (i : Fin nproc)
  | endOp (i : Fin nproc)
  /-- some process reads block `b` -/
  | read (b : UInt32)
  /-- process `i` changes block `b` to `data` and calls `log_write` -/
  | write (i : Fin nproc) (b : UInt32) (data : Block)
  /-- the buffer of block `b` is recycled -/
  | evict (b : UInt32)
  | commit
  | crash

/-- `recover_from_log` has returned, the file system is in use. -/
def LogState.Up (s : LogState) : Prop :=
  match s.pc with
  | .readHead | .redo _ => False
  | _ => True

instance (s : LogState) : Decidable s.Up := by
  unfold LogState.Up
  split <;> infer_instance

/-- The state after an event, if the event can happen. -/
def logStep (e : LogEvent) (s : LogState) : Option LogState :=
  match e with
  | .beginOp i => if s.Up ∧ s.op i = none then beginOp s i else none
  | .endOp i => if (s.op i).isSome then endOp s i else none
  | .read b => if s.Up then some (s.bread b) else none
  | .write i b data =>
      match s.op i with
      | some logged =>
          let s := s.bread b
          let s := s.setBuf b { s.buf b with data := data }
          let s := { s with op := Function.update s.op i (some (insert b logged)) }
          logWrite s b
      | none => none
  | .evict b =>
      match s.cache b with
      | some buf =>
          if buf.refcnt = 0 then some { s with cache := Function.update s.cache b none } else none
      | none => none
  | .commit => commitStep start s
  | .crash => some (.boot s.disk)

end Log

end G20OsLab.Kernel
