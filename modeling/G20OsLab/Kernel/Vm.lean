/-
  G20OsLab.Kernel.Vm

  Physical pages and page tables (`kernel/kalloc.c`, `kernel/vm.c`,
  `growproc` and the page tables of `kernel/proc.c`).

  An address of a physical page is the number of its frame.  A frame holds a
  page table, a page of bytes, or junk, and a function that finds the wrong
  kind of content in a frame is stuck, as is one that panics: its result is
  `none`.  A page table entry is `none` if it is not valid.
-/

import G20OsLab.Lib.Forest
import G20OsLab.Kernel.Copyinstr

namespace G20OsLab.Kernel

open Lib (Frame slotAt setSlot)

/-! ## Addresses -/

/-- `PHYSTOP`, as a frame number. -/
def physTop : Nat := 0x88000

/-- `TRAMPOLINE`. -/
def trampoline : Nat := maxva - pgsize

/-- `TRAPFRAME`. -/
def trapframe : Nat := trampoline - pgsize

/-- `PGROUNDUP`. -/
def pgroundup (sz : Nat) : Nat := pgrounddown (sz + (pgsize - 1))

/-- `PX(level, va)`. -/
def px (level va : Nat) : Fin 512 := ⟨va / (pgsize * 512 ^ level) % 512, Nat.mod_lt _ (by decide)⟩

/-! ## Frames -/

/-- The flags of a valid entry. -/
structure PteFlags where
  r : Bool
  w : Bool
  x : Bool
  u : Bool
  deriving DecidableEq, Repr

/-- The entry points to a page and not to a lower-level table. -/
def PteFlags.leaf (flags : PteFlags) : Bool := flags.r || flags.w || flags.x

/-- `PTE_V` alone. -/
def PteFlags.pointer : PteFlags := ⟨false, false, false, false⟩

abbrev Page := Fin 4096 → UInt8

def Page.zero : Page := fun _ => 0

/-- A valid entry: the frame, and the flags. -/
abbrev Pte := Nat × PteFlags

abbrev Mem := Nat → Frame Nat (Fin 512) PteFlags Page

/-- Physical memory, and `kmem.freelist`. -/
structure Phys where
  mem : Mem
  freelist : List Nat

namespace Phys

def set (s : Phys) (f : Nat) (content : Frame Nat (Fin 512) PteFlags Page) : Phys :=
  { s with mem := Function.update s.mem f content }

/-- `memset(pagetable, 0, PGSIZE)`. -/
def zeroTable (s : Phys) (f : Nat) : Phys := s.set f (.table fun _ => none)

/-- `memset(mem, 0, PGSIZE)`. -/
def zeroPage (s : Phys) (f : Nat) : Phys := s.set f (.page Page.zero)

/-- `*pte`. -/
def loadPte (s : Phys) (pagetable : Nat) (k : Fin 512) : Option (Option Pte) :=
  match s.mem pagetable with
  | .table slot => some (slot k)
  | _ => none

def storePte (s : Phys) (pagetable : Nat) (k : Fin 512) (pte : Option Pte) : Option Phys :=
  match s.mem pagetable with
  | .table _ => some { s with mem := setSlot s.mem pagetable k pte }
  | _ => none

/-- The bytes of a page. -/
def loadPage (s : Phys) (f : Nat) : Option Page :=
  match s.mem f with
  | .page data => some data
  | _ => none

def storePage (s : Phys) (f : Nat) (data : Page) : Option Phys :=
  match s.mem f with
  | .page _ => some (s.set f (.page data))
  | _ => none

end Phys

section Vm

-- `kend` is the first frame after the kernel, where `end` points
variable (kend : Nat)

/-! ## The allocator -/

def kalloc (s : Phys) : Phys × Option Nat :=
  match s.freelist with
  | [] => (s, none)
  | r :: next => ({ s with freelist := next }.set r .junk, some r)

def kfree (s : Phys) (f : Nat) : Option Phys :=
  if f < kend ∨ physTop ≤ f then none
  else some { s.set f .junk with freelist := f :: s.freelist }

/-! ## Page tables -/

/-- The loop of `walk` from a level down. -/
def walkFrom (va : Nat) (alloc : Bool) : (level : Nat) → Phys → (pagetable : Nat) →
    Option (Phys × Option (Nat × Fin 512))
  | 0, s, pagetable => some (s, some (pagetable, px 0 va))
  | level + 1, s, pagetable => do
      match ← s.loadPte pagetable (px (level + 1) va) with
      | some pte => walkFrom va alloc level s pte.1
      | none =>
          if alloc then
            match kalloc s with
            | (s, none) => some (s, none)
            | (s, some table) =>
                let s ← (s.zeroTable table).storePte pagetable (px (level + 1) va)
                  (some (table, .pointer))
                walkFrom va alloc level s table
          else some (s, none)

/-- `walk`: the table and the slot of the entry for `va`. -/
def walk (s : Phys) (pagetable va : Nat) (alloc : Bool) :
    Option (Phys × Option (Nat × Fin 512)) :=
  if maxva ≤ va then none else walkFrom va alloc 2 s pagetable

/-- The entry for `va`, which `walk` finds without allocating. -/
def lookup (s : Phys) (pagetable va : Nat) : Option (Option Pte) := do
  match ← walk s pagetable va false with
  | (_, none) => some none
  | (_, some (table, k)) => s.loadPte table k

/-- `walkaddr`: the frame of a user page. -/
def walkaddr (s : Phys) (pagetable va : Nat) : Option (Option Nat) := do
  if maxva ≤ va then some none
  else
    match ← lookup s pagetable va with
    | none => some none
    | some pte => some (if pte.2.u then some pte.1 else none)

def ismapped (s : Phys) (pagetable va : Nat) : Option Bool :=
  (lookup s pagetable va).map (·.isSome)

/-- The loop of `mappages`, for `n` pages from `a` on. -/
def mapLoop (pagetable : Nat) (perm : PteFlags) : (n : Nat) → Phys → (a pa : Nat) →
    Option (Phys × Bool)
  | 0, s, _, _ => some (s, true)
  | n + 1, s, a, pa => do
      match ← walk s pagetable a true with
      | (s, none) => some (s, false)
      | (s, some (table, k)) =>
          match ← s.loadPte table k with
          | some _ => none
          | none =>
              let s ← s.storePte table k (some (pa, perm))
              mapLoop pagetable perm n s (a + pgsize) (pa + 1)

/-- `mappages`; the second component is whether it returns 0. -/
def mappages (s : Phys) (pagetable va size pa : Nat) (perm : PteFlags) : Option (Phys × Bool) :=
  if va % pgsize ≠ 0 ∨ size % pgsize ≠ 0 ∨ size = 0 then none
  else mapLoop pagetable perm (size / pgsize) s va pa

/-- The loop of `uvmunmap`, for `n` pages from `a` on. -/
def unmapLoop (pagetable : Nat) (doFree : Bool) : (n : Nat) → Phys → (a : Nat) → Option Phys
  | 0, s, _ => some s
  | n + 1, s, a => do
      match ← walk s pagetable a false with
      | (s, none) => unmapLoop pagetable doFree n s (a + pgsize)
      | (s, some (table, k)) =>
          match ← s.loadPte table k with
          | none => unmapLoop pagetable doFree n s (a + pgsize)
          | some pte =>
              let s ← if doFree then kfree kend s pte.1 else some s
              let s ← s.storePte table k none
              unmapLoop pagetable doFree n s (a + pgsize)

def uvmunmap (s : Phys) (pagetable va npages : Nat) (doFree : Bool) : Option Phys :=
  if va % pgsize ≠ 0 then none else unmapLoop kend pagetable doFree npages s va

def uvmcreate (s : Phys) : Phys × Option Nat :=
  match kalloc s with
  | (s, none) => (s, none)
  | (s, some pagetable) => (s.zeroTable pagetable, some pagetable)

/-- `uvmdealloc`, and the size it returns. -/
def uvmdealloc (s : Phys) (pagetable oldsz newsz : Nat) : Option (Phys × Nat) := do
  if oldsz ≤ newsz then some (s, oldsz)
  else if pgroundup newsz < pgroundup oldsz then
    let npages := (pgroundup oldsz - pgroundup newsz) / pgsize
    let s ← uvmunmap kend s pagetable (pgroundup newsz) npages true
    some (s, newsz)
  else some (s, newsz)

/-- The loop of `uvmalloc`, for `n` pages from `a` on; the second component is
    whether it gets to the end. -/
def allocLoop (pagetable oldsz : Nat) (perm : PteFlags) : (n : Nat) → Phys → (a : Nat) →
    Option (Phys × Bool)
  | 0, s, _ => some (s, true)
  | n + 1, s, a =>
      match kalloc s with
      | (s, none) => do
          let (s, _) ← uvmdealloc kend s pagetable a oldsz
          some (s, false)
      | (s, some mem) => do
          match ← mappages (s.zeroPage mem) pagetable a pgsize mem perm with
          | (s, true) => allocLoop pagetable oldsz perm n s (a + pgsize)
          | (s, false) =>
              let s ← kfree kend s mem
              let (s, _) ← uvmdealloc kend s pagetable a oldsz
              some (s, false)

/-- `uvmalloc`, and the size it returns, 0 on an error. -/
def uvmalloc (s : Phys) (pagetable oldsz newsz : Nat) (xperm : PteFlags) :
    Option (Phys × Nat) := do
  if newsz < oldsz then some (s, oldsz)
  else
    let perm := { xperm with r := true, u := true }
    let oldsz := pgroundup oldsz
    -- the rounds of the loop from `oldsz` up to `newsz`
    let n := (pgroundup newsz - oldsz) / pgsize
    let (s, ok) ← allocLoop kend pagetable oldsz perm n s oldsz
    some (s, if ok then newsz else 0)

/-- A round of the loop of `freewalk`, where `walk` is the recursive call. -/
def freeSlot (walk : Phys → Nat → Option Phys) (pagetable : Nat) (s : Phys) (i : Fin 512) :
    Option Phys := do
  match ← s.loadPte pagetable i with
  | none => some s
  | some pte =>
      if pte.2.leaf then none
      else
        let s ← walk s pte.1
        s.storePte pagetable i none

/-- `freewalk` of a table at most `level` levels high. -/
def freewalk : (level : Nat) → Phys → (pagetable : Nat) → Option Phys
  | 0, _, _ => none
  | level + 1, s, pagetable => do
      let s ← (List.finRange 512).foldlM (freeSlot (freewalk level) pagetable) s
      kfree kend s pagetable

def uvmfree (s : Phys) (pagetable sz : Nat) : Option Phys := do
  let s ← if sz > 0 then uvmunmap kend s pagetable 0 (pgroundup sz / pgsize) true else some s
  freewalk kend 3 s pagetable

/-- The loop of `uvmcopy`, for `n` pages from `i` on. -/
def copyLoop (old new : Nat) : (n : Nat) → Phys → (i : Nat) → Option (Phys × Bool)
  | 0, s, _ => some (s, true)
  | n + 1, s, i => do
      match ← lookup s old i with
      | none => copyLoop old new n s (i + pgsize)
      | some pte =>
          match kalloc s with
          | (s, none) =>
              let s ← uvmunmap kend s new 0 (i / pgsize) true
              some (s, false)
          | (s, some mem) =>
              let data ← s.loadPage pte.1
              match ← mappages (s.set mem (.page data)) new i pgsize mem pte.2 with
              | (s, true) => copyLoop old new n s (i + pgsize)
              | (s, false) =>
                  let s ← kfree kend s mem
                  let s ← uvmunmap kend s new 0 (i / pgsize) true
                  some (s, false)

/-- `uvmcopy`; the second component is whether it returns 0. -/
def uvmcopy (s : Phys) (old new sz : Nat) : Option (Phys × Bool) :=
  copyLoop kend old new (pgroundup sz / pgsize) s 0

/-- The user memory of a process in its `struct proc`. -/
structure Image where
  pagetable : Nat
  sz : Nat

/-- `vmfault`, where `p` is the image of `myproc`. -/
def vmfault (s : Phys) (p : Image) (pagetable va : Nat) : Option (Phys × Option Nat) := do
  if p.sz ≤ va then some (s, none)
  else
    let va := pgrounddown va
    if ← ismapped s pagetable va then some (s, none)
    else
      match kalloc s with
      | (s, none) => some (s, none)
      | (s, some mem) =>
          match ← mappages (s.zeroPage mem) p.pagetable va pgsize mem
              ⟨true, true, false, true⟩ with
          | (s, true) => some (s, some mem)
          | (s, false) =>
              let s ← kfree kend s mem
              some (s, none)

/-! ## Copies -/

/-- The bytes of a page with `src` written from `offset` on. -/
def Page.write (data : Page) (offset : Nat) (src : List UInt8) : Page := fun k =>
  if offset ≤ k.val then src.getD (k.val - offset) (data k) else data k

/-- The page at `va0` for a copy, which `vmfault` makes if need be. -/
def copyAddr (s : Phys) (p : Image) (pagetable va0 : Nat) : Option (Phys × Option Nat) := do
  match ← walkaddr s pagetable va0 with
  | some pa0 => some (s, some pa0)
  | none => vmfault kend s p pagetable va0

/-- `copyout` of the bytes `src` to `dstva`; the second component is whether it
    returns 0. -/
def copyout (s : Phys) (p : Image) (pagetable dstva : Nat) (src : List UInt8) :
    Option (Phys × Bool) :=
  if src.length > 0 then do
    let va0 := pgrounddown dstva
    if maxva ≤ va0 then some (s, false)
    else
      match ← copyAddr kend s p pagetable va0 with
      | (s, none) => some (s, false)
      | (s, some pa0) =>
          let pte ← lookup s pagetable va0
          -- forbid copyout over read-only user text pages
          if (pte.map (·.2.w)).getD false then
            let n := min (pgsize - (dstva - va0)) src.length
            let data ← s.loadPage pa0
            let s ← s.storePage pa0 (data.write (dstva - va0) (src.take n))
            if 0 < n then copyout s p pagetable (va0 + pgsize) (src.drop n) else none
          else some (s, false)
  else some (s, true)
termination_by src.length
decreasing_by
  rw [List.length_drop]
  omega

/-- `copyin` of `len` bytes from `srcva`; `none` in the second component if it
    returns -1. -/
def copyin (s : Phys) (p : Image) (pagetable srcva len : Nat) :
    Option (Phys × Option (List UInt8)) :=
  if len > 0 then do
    let va0 := pgrounddown srcva
    match ← copyAddr kend s p pagetable va0 with
    | (s, none) => some (s, none)
    | (s, some pa0) =>
        let n := min (pgsize - (srcva - va0)) len
        let data ← s.loadPage pa0
        let bytes := (List.ofFn data).drop (srcva - va0) |>.take n
        if 0 < n then
          match ← copyin s p pagetable (va0 + pgsize) (len - n) with
          | (s, none) => some (s, none)
          | (s, some rest) => some (s, some (bytes ++ rest))
        else none
  else some (s, some [])
termination_by len
decreasing_by omega

end Vm

end G20OsLab.Kernel
