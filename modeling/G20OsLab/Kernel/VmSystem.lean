/-
  G20OsLab.Kernel.VmSystem

  The user memories of all processes (the parts of `kernel/proc.c`,
  `kernel/sysproc.c`, `kernel/exec.c` and `kernel/pipe.c` that use memory).

  A step is one call; it does what the call does to physical memory and to the
  table of processes, and notes what the call returned.  It is stuck only where
  the kernel panics.  Calls do not overlap, though `kexec` sleeps on the disk, and
  the registers of a new program (`epc`, `sp`, `a1`) are in no frame that is
  followed here.
-/

import Mathlib.Logic.Function.Basic
import G20OsLab.Kernel.Types
import G20OsLab.Kernel.Vm

namespace G20OsLab.Kernel

/-- The user memory of a slot of the process table. -/
structure ProcMem where
  trapframe : Option Nat
  pagetable : Option Nat
  sz : Nat
  deriving DecidableEq

def ProcMem.unused : ProcMem := ⟨none, none, 0⟩

/-- `struct elfhdr`. -/
structure ElfHdr where
  magic : Nat
  phoff : Nat
  phnum : Nat

/-- `struct proghdr`. -/
structure ProgHdr where
  type : Nat
  flags : Nat
  off : Nat
  vaddr : Nat
  filesz : Nat
  memsz : Nat

/-- What `readi` gives of a program file: the header, the program header at an
    offset, `none` for a short read, and the bytes of a range. -/
structure ExecFile where
  elf : Option ElfHdr
  ph : (off : Nat) → Option ProgHdr
  data : (off n : Nat) → List UInt8

/-- `ELF_MAGIC`. -/
def elfMagic : Nat := 0x464C457F

/-- `ELF_PROG_LOAD`. -/
def elfProgLoad : Nat := 1

/-- `sizeof(struct proghdr)`. -/
def proghdrSize : Nat := 56

/-- `MAXARG`. -/
def maxarg : Nat := 32

/-- `USERSTACK`. -/
def userstack : Nat := 1

/-- What a call returned. -/
inductive VmResult
  /-- nothing -/
  | done
  /-- whether it was successful -/
  | ok (success : Bool)
  /-- the bytes that were read, if they were -/
  | bytes (read : Option (List UInt8))

/-- Physical memory and who uses it. -/
structure VmState where
  phys : Phys
  proc : Fin nproc → ProcMem
  /-- the pages of the pipes -/
  pipes : List Nat
  /-- of the last call -/
  ret : VmResult

/-- A call of process `i`, or one about it. -/
inductive VmEvent
  /-- `userinit` -/
  | allocproc (i : Fin nproc)
  /-- `fork_with_priority` or `kclone`, with slot `j` for the child -/
  | fork (i j : Fin nproc)
  | freeproc (i : Fin nproc)
  /-- `kexec` of the program file, with the arguments -/
  | exec (i : Fin nproc) (file : ExecFile) (argv : List (List UInt8))
  | sbrk (i : Fin nproc) (n t : Int)
  | fault (i : Fin nproc) (va : Nat)
  /-- the process writes a byte, with the page fault on the way if need be -/
  | store (i : Fin nproc) (va : Nat) (b : UInt8)
  | copyout (i : Fin nproc) (dstva : Nat) (src : List UInt8)
  | copyin (i : Fin nproc) (srcva len : Nat)
  | pipealloc
  | pipeclose (pi : Nat)

section VmSystem

-- `tramp` is the frame of the trampoline code
variable (kend tramp : Nat)

namespace Vm

/-! ## Page tables of processes -/

/-- `proc_pagetable` for a process with trapframe `tf`. -/
def procPagetable (s : Phys) (tf : Nat) : Option (Phys × Option Nat) :=
  match uvmcreate s with
  | (s, none) => some (s, none)
  | (s, some pagetable) => do
      match ← mappages s pagetable trampoline pgsize tramp ⟨true, false, true, false⟩ with
      | (s, false) =>
          let s ← uvmfree kend s pagetable 0
          some (s, none)
      | (s, true) =>
          match ← mappages s pagetable trapframe pgsize tf ⟨true, true, false, false⟩ with
          | (s, false) =>
              let s ← uvmunmap kend s pagetable trampoline 1 false
              let s ← uvmfree kend s pagetable 0
              some (s, none)
          | (s, true) => some (s, some pagetable)

/-- `proc_freepagetable`. -/
def procFreepagetable (s : Phys) (pagetable sz : Nat) : Option Phys := do
  let s ← uvmunmap kend s pagetable trampoline 1 false
  let s ← uvmunmap kend s pagetable trapframe 1 false
  uvmfree kend s pagetable sz

/-- `freeproc`. -/
def freeproc (s : Phys) (p : ProcMem) : Option Phys := do
  let s ← match p.trapframe with
    | some tf => kfree kend s tf
    | none => some s
  match p.pagetable with
  | some pagetable => procFreepagetable kend s pagetable p.sz
  | none => some s

/-- `allocproc`, once it has found a slot. -/
def allocproc (s : Phys) : Option (Phys × Option ProcMem) :=
  match kalloc s with
  | (s, none) => do
      let s ← freeproc kend s .unused
      some (s, none)
  | (s, some tf) => do
      match ← procPagetable kend tramp s tf with
      | (s, none) =>
          let s ← freeproc kend s ⟨some tf, none, 0⟩
          some (s, none)
      | (s, some pagetable) => some (s, some ⟨some tf, some pagetable, 0⟩)

/-- `fork_with_priority` and `kclone` of a process with page table
    `pagetable`. -/
def fork (s : Phys) (pagetable sz : Nat) : Option (Phys × Option ProcMem) := do
  match ← allocproc kend tramp s with
  | (s, none) => some (s, none)
  | (s, some np) =>
      let new ← np.pagetable
      match ← uvmcopy kend s pagetable new sz with
      | (s, false) =>
          let s ← freeproc kend s np
          some (s, none)
      | (s, true) => some (s, some { np with sz := sz })

/-! ## sbrk -/

/-- `growproc`: the new size, or `none` for a return of `-1`. -/
def growproc (s : Phys) (pagetable sz : Nat) (n : Int) : Option (Phys × Option Nat) :=
  if n > 0 then
    let newsz := sz + n.toNat
    if newsz > trapframe then some (s, none)
    else do
      let (s, sz) ← uvmalloc kend s pagetable sz newsz ⟨false, true, false, false⟩
      some (s, if sz = 0 then none else some sz)
  else if n < 0 then do
    -- `sz + n` wraps around
    let (s, sz) ← uvmdealloc kend s pagetable sz ((sz + n) % 2 ^ 64).toNat
    some (s, some sz)
  else some (s, some sz)

/-- `sys_sbrk`.  `SBRK_EAGER` is 1. -/
def sysSbrk (s : Phys) (pagetable sz : Nat) (n t : Int) : Option (Phys × Option Nat) :=
  if t = 1 ∨ n < 0 then growproc kend s pagetable sz n
  -- the pages come with their first use
  else if sz + n.toNat > trapframe then some (s, none)
  else some (s, some (sz + n.toNat))

/-! ## User accesses -/

/-- A byte written by the process, unless the page is not there or not
    writable. -/
def storeByte (s : Phys) (pagetable va : Nat) (b : UInt8) : Option (Phys × Bool) :=
  if maxva ≤ va then some (s, false)
  else do
    match ← lookup s pagetable va with
    | none => some (s, false)
    | some pte =>
        if pte.2.u && pte.2.w then
          let data ← s.loadPage pte.1
          let s ← s.storePage pte.1 (data.write (va % pgsize) [b])
          some (s, true)
        else some (s, false)

/-- A store of the process `p`.  Where it cannot be done it traps: `usertrap`
    lets it try again if `vmfault` has made a page, and kills the process if
    not. -/
def userStore (s : Phys) (p : Image) (va : Nat) (b : UInt8) : Option (Phys × Bool) := do
  match ← storeByte s p.pagetable va b with
  | (s, true) => some (s, true)
  | (s, false) =>
      match ← vmfault kend s p p.pagetable va with
      | (s, none) => some (s, false)
      | (s, some _) => storeByte s p.pagetable va b

/-! ## kexec -/

/-- `flags2perm`. -/
def flags2perm (flags : Nat) : PteFlags := ⟨false, flags.testBit 1, flags.testBit 0, false⟩

/-- `uvmclear`. -/
def uvmclear (s : Phys) (pagetable va : Nat) : Option Phys := do
  match ← walk s pagetable va false with
  | (_, none) => none
  | (s, some (table, k)) =>
      let pte ← s.loadPte table k
      s.storePte table k (pte.map fun pte => (pte.1, { pte.2 with u := false }))

/-- The loop of `loadseg`, for `n` pages from `i` on. -/
def loadLoop (file : ExecFile) (pagetable va offset sz : Nat) : (n : Nat) → Phys → (i : Nat) →
    Option (Phys × Bool)
  | 0, s, _ => some (s, true)
  | n + 1, s, i => do
      match ← walkaddr s pagetable (va + i) with
      | none => none
      | some pa =>
          let len := if sz - i < pgsize then sz - i else pgsize
          let bytes := (file.data ((offset + i) % 2 ^ 32) len).take len
          let data ← s.loadPage pa
          let s ← s.storePage pa (data.write 0 bytes)
          if bytes.length ≠ len then some (s, false)
          else loadLoop file pagetable va offset sz n s (i + pgsize)

/-- `loadseg`; the second component is whether it returns 0. -/
def loadseg (s : Phys) (file : ExecFile) (pagetable va offset sz : Nat) : Option (Phys × Bool) :=
  loadLoop file pagetable va offset sz (pgroundup sz / pgsize) s 0

/-- The loop of `kexec` over `n` program headers from `off` on: the size so far,
    and whether all went well. -/
def loadPhdrs (file : ExecFile) (pagetable : Nat) : (n : Nat) → Phys → (off sz : Nat) →
    Option (Phys × Nat × Bool)
  | 0, s, _, sz => some (s, sz, true)
  | n + 1, s, off, sz =>
      match file.ph (off % 2 ^ 32) with
      | none => some (s, sz, false)
      | some ph =>
          if ph.type ≠ elfProgLoad then loadPhdrs file pagetable n s (off + proghdrSize) sz
          else if ph.memsz < ph.filesz then some (s, sz, false)
          else if 2 ^ 64 ≤ ph.vaddr + ph.memsz then some (s, sz, false)
          else if ph.vaddr % pgsize ≠ 0 then some (s, sz, false)
          else do
            let (s, sz1) ← uvmalloc kend s pagetable sz (ph.vaddr + ph.memsz) (flags2perm ph.flags)
            if sz1 = 0 then some (s, sz, false)
            else
              match ← loadseg s file pagetable ph.vaddr (ph.off % 2 ^ 32) (ph.filesz % 2 ^ 32) with
              | (s, false) => some (s, sz1, false)
              | (s, true) => loadPhdrs file pagetable n s (off + proghdrSize) sz1

/-- The loop of `kexec` over the arguments from number `argc` on: the stack
    pointer, and the addresses for `ustack`. -/
def pushArgs (p : Image) (pagetable stackbase : Nat) : (argv : List (List UInt8)) → (argc : Nat) →
    Phys → (sp : Nat) → Option (Phys × Option (Nat × List Nat))
  | [], _, s, sp => some (s, some (sp, []))
  | arg :: argv, argc, s, sp =>
      if maxarg ≤ argc then some (s, none)
      else
        let sp := sp - (arg.length + 1)
        -- riscv sp must be 16-byte aligned
        let sp := sp - sp % 16
        if sp < stackbase then some (s, none)
        else do
          match ← copyout kend s p pagetable sp (arg ++ [0]) with
          | (s, false) => some (s, none)
          | (s, true) =>
              match ← pushArgs p pagetable stackbase argv (argc + 1) s sp with
              | (s, none) => some (s, none)
              | (s, some (sp', ustack)) => some (s, some (sp', sp :: ustack))

/-- The bytes of a `uint64`. -/
def u64Bytes (x : Nat) : List UInt8 := (List.range 8).map fun k => UInt8.ofNat (x / 256 ^ k % 256)

/-- The stack of `kexec`: its size, and the stack pointer if all went well. -/
def setupStack (s : Phys) (p : Image) (pagetable sz : Nat) (argv : List (List UInt8)) :
    Option (Phys × Nat × Option Nat) := do
  let sz := pgroundup sz
  let (s, sz1) ← uvmalloc kend s pagetable sz (sz + (userstack + 1) * pgsize)
    ⟨false, true, false, false⟩
  if sz1 = 0 then some (s, sz, none)
  else
    let s ← uvmclear s pagetable (sz1 - (userstack + 1) * pgsize)
    let stackbase := sz1 - userstack * pgsize
    match ← pushArgs kend p pagetable stackbase argv 0 s sz1 with
    | (s, none) => some (s, sz1, none)
    | (s, some (sp, ustack)) =>
        -- `ustack` has no room for more
        if maxarg ≤ ustack.length then none
        else
          let sp := sp - (ustack.length + 1) * 8
          let sp := sp - sp % 16
          if sp < stackbase then some (s, sz1, none)
          else
            match ← copyout kend s p pagetable sp ((ustack ++ [0]).flatMap u64Bytes) with
            | (s, false) => some (s, sz1, none)
            | (s, true) => some (s, sz1, some sp)

/-- `kexec`: the memory of the process after it, and whether it was
    successful. -/
def kexec (s : Phys) (p : ProcMem) (file : ExecFile) (argv : List (List UInt8)) :
    Option (Phys × ProcMem × Bool) :=
  match file.elf with
  | none => some (s, p, false)
  | some elf =>
      if elf.magic ≠ elfMagic then some (s, p, false)
      else do
        let tf ← p.trapframe
        let oldpagetable ← p.pagetable
        match ← procPagetable kend tramp s tf with
        | (s, none) => some (s, p, false)
        | (s, some pagetable) =>
            match ← loadPhdrs kend file pagetable elf.phnum s elf.phoff 0 with
            | (s, sz, false) =>
                let s ← procFreepagetable kend s pagetable sz
                some (s, p, false)
            | (s, sz, true) =>
                match ← setupStack kend s ⟨oldpagetable, p.sz⟩ pagetable sz argv with
                | (s, sz, none) =>
                    let s ← procFreepagetable kend s pagetable sz
                    some (s, p, false)
                | (s, sz, some _) =>
                    let s ← procFreepagetable kend s oldpagetable p.sz
                    some (s, { p with pagetable := some pagetable, sz := sz }, true)

end Vm

/-! ## Steps -/

namespace VmState

def setProc (s : VmState) (phys : Phys) (i : Fin nproc) (p : ProcMem) (ret : VmResult) : VmState :=
  { s with phys := phys, proc := Function.update s.proc i p, ret := ret }

/-- The call returns, and only physical memory has changed. -/
def setPhys (s : VmState) (phys : Phys) (ret : VmResult) : VmState :=
  { s with phys := phys, ret := ret }

end VmState

def vmStep : VmEvent → VmState → Option VmState
  | .allocproc i, s => do
      match ← Vm.allocproc kend tramp s.phys with
      | (phys, none) => some (s.setPhys phys (.ok false))
      | (phys, some p) => some (s.setProc phys i p (.ok true))
  | .fork i j, s => do
      let pagetable ← (s.proc i).pagetable
      match ← Vm.fork kend tramp s.phys pagetable (s.proc i).sz with
      | (phys, none) => some (s.setPhys phys (.ok false))
      | (phys, some np) => some (s.setProc phys j np (.ok true))
  | .freeproc i, s => do
      let phys ← Vm.freeproc kend s.phys (s.proc i)
      some (s.setProc phys i .unused .done)
  | .exec i file argv, s => do
      let (phys, p, ok) ← Vm.kexec kend tramp s.phys (s.proc i) file argv
      some (s.setProc phys i p (.ok ok))
  | .sbrk i n t, s => do
      let pagetable ← (s.proc i).pagetable
      match ← Vm.sysSbrk kend s.phys pagetable (s.proc i).sz n t with
      | (phys, none) => some (s.setPhys phys (.ok false))
      | (phys, some sz) => some (s.setProc phys i { s.proc i with sz := sz } (.ok true))
  | .fault i va, s => do
      let pagetable ← (s.proc i).pagetable
      let (phys, mem) ← vmfault kend s.phys ⟨pagetable, (s.proc i).sz⟩ pagetable va
      some (s.setPhys phys (.ok mem.isSome))
  | .store i va b, s => do
      let pagetable ← (s.proc i).pagetable
      let (phys, ok) ← Vm.userStore kend s.phys ⟨pagetable, (s.proc i).sz⟩ va b
      some (s.setPhys phys (.ok ok))
  | .copyout i dstva src, s => do
      let pagetable ← (s.proc i).pagetable
      let (phys, ok) ← copyout kend s.phys ⟨pagetable, (s.proc i).sz⟩ pagetable dstva src
      some (s.setPhys phys (.ok ok))
  | .copyin i srcva len, s => do
      let pagetable ← (s.proc i).pagetable
      let (phys, read) ← copyin kend s.phys ⟨pagetable, (s.proc i).sz⟩ pagetable srcva len
      some (s.setPhys phys (.bytes read))
  | .pipealloc, s =>
      match kalloc s.phys with
      | (phys, none) => some (s.setPhys phys (.ok false))
      | (phys, some pi) => some { s with phys := phys, pipes := pi :: s.pipes, ret := .ok true }
  | .pipeclose pi, s => do
      let phys ← kfree kend s.phys pi
      some { s with phys := phys, pipes := s.pipes.erase pi, ret := .done }

/-- The calls that can happen: a slot is free when a process is put into it, a
    process that does something has memory, a pipe is closed once, `sys_exec`
    takes fewer than `MAXARG` arguments, and `n` is an `int`. -/
def VmEvent.Allowed (s : VmState) : VmEvent → Prop
  | .allocproc i => s.proc i = .unused
  | .fork i j => (s.proc i).pagetable ≠ none ∧ s.proc j = .unused
  | .freeproc _ => True
  | .exec i _ argv => (s.proc i).pagetable ≠ none ∧ argv.length < maxarg
  | .sbrk i n _ => (s.proc i).pagetable ≠ none ∧ -2 ^ 31 ≤ n ∧ n < 2 ^ 31
  | .fault i _ => (s.proc i).pagetable ≠ none
  | .store i _ _ => (s.proc i).pagetable ≠ none
  | .copyout i _ _ => (s.proc i).pagetable ≠ none
  | .copyin i _ _ => (s.proc i).pagetable ≠ none
  | .pipealloc => True
  | .pipeclose pi => pi ∈ s.pipes

instance (s : VmState) (e : VmEvent) : Decidable (e.Allowed s) :=
  match e with
  | .allocproc i => inferInstanceAs (Decidable (s.proc i = .unused))
  | .fork i j => inferInstanceAs (Decidable ((s.proc i).pagetable ≠ none ∧ s.proc j = .unused))
  | .freeproc _ | .pipealloc => isTrue trivial
  | .exec i _ argv =>
      inferInstanceAs (Decidable ((s.proc i).pagetable ≠ none ∧ argv.length < maxarg))
  | .sbrk i n _ =>
      inferInstanceAs (Decidable ((s.proc i).pagetable ≠ none ∧ -2 ^ 31 ≤ n ∧ n < 2 ^ 31))
  | .fault i _ | .store i _ _ | .copyout i _ _ | .copyin i _ _ =>
      inferInstanceAs (Decidable ((s.proc i).pagetable ≠ none))
  | .pipeclose pi => inferInstanceAs (Decidable (pi ∈ s.pipes))

end VmSystem

end G20OsLab.Kernel
