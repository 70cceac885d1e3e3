/-
  G20OsLab.Kernel.Memories

  What the virtual memory is for: every process has a memory of its own.

  `memoriesStep` is a machine that has no frames and no page tables, only what each
  process sees.  A size acts on whole pages (`Seen.resize`).  `VmMay` says which
  operations a call stands for by what it returned, and when it may fail: if what
  it asks for is not there, or if fewer frames are free than it may need.  A call
  that fails stands for nothing, or for a write cut short.
-/

import G20OsLab.Lib.Simulation
import G20OsLab.Kernel.ExecImage

namespace G20OsLab.Kernel

/-! ## The machine -/

/-- The memories of the processes that have one. -/
abbrev Memories := Fin nproc → Option View

/-- Pages between the sizes come as zeros, or go.  Of a page that stays all bytes
    are kept, also those beyond the size. -/
def Seen.resize (v : Seen) (old new : Nat) : Seen := fun n =>
  if pageCount new ≤ n then none
  else if pageCount old ≤ n then some (Page.zero, true)
  else v n

/-- The size `sz + n`, or `sz` if that is negative. -/
def resized (sz : Nat) (n : Int) : Nat := if sz + n < 0 then sz else (sz + n).toNat

inductive MemOp
  | start (i : Fin nproc)
  | stop (i : Fin nproc)
  /-- `j` gets a copy of the memory of `i` -/
  | copy (i j : Fin nproc)
  /-- `i` gets a new memory -/
  | load (i : Fin nproc) (img : View)
  | resize (i : Fin nproc) (n : Int)
  | write (i : Fin nproc) (dst : Nat) (src : List UInt8)
  /-- what `i` has from `src` on is `bytes` -/
  | read (i : Fin nproc) (src : Nat) (bytes : List UInt8)

def memoriesStep : MemOp → Memories → Option Memories
  | .start i, a => some (Function.update a i (some (0, fun _ => none)))
  | .stop i, a => some (Function.update a i none)
  | .copy i j, a => some (Function.update a j (a i))
  | .load i img, a => do
      let _ ← a i
      some (Function.update a i (some img))
  | .resize i n, a => do
      let (sz, v) ← a i
      some (Function.update a i (some (resized sz n, v.resize sz (resized sz n))))
  | .write i dst src, a => do
      let (sz, v) ← a i
      if ∀ k < src.length, v.Writable (dst + k) then
        some (Function.update a i (some (sz, v.write dst src)))
      else none
  | .read i src bytes, a => do
      let (_, v) ← a i
      if bytes.map some = (List.range' src bytes.length).map v.byteAt then some a else none

/-! ## Calls -/

/-- What a process sees through its page table. -/
def userView (s : Phys) (pagetable sz : Nat) : Seen := fun n =>
  if maxva ≤ n * pgsize then none
  else
    match lookup s pagetable (n * pgsize) with
    | some (some pte) =>
        match s.mem pte.1 with
        | .page data => if pte.2.u then some (data, pte.2.w) else none
        | _ => none
    -- the page comes with its first use
    | _ => if n * pgsize < sz then some (Page.zero, true) else none

/-- The memories of all processes. -/
def VmState.memories (s : VmState) : Memories := fun i =>
  (s.proc i).pagetable.map fun pagetable =>
    ((s.proc i).sz, userView s.phys pagetable (s.proc i).sz)

/-- The bytes that a process sees at an address may be written. -/
def VmState.Writable (s : VmState) (i : Fin nproc) (va : Nat) : Prop :=
  ∃ sz v, s.memories i = some (sz, v) ∧ v.Writable va

/-- The process sees nothing at an address. -/
def VmState.Unseen (s : VmState) (i : Fin nproc) (va : Nat) : Prop :=
  ∃ sz v, s.memories i = some (sz, v) ∧ v.byteAt va = none

/-- Fewer than `k` frames are free. -/
def VmState.Short (s : VmState) (k : Nat) : Prop := s.phys.freelist.length < k

/-- The operations that a call in `s` stands for, by what it returned in `t`.  It
    returns nothing else, and fails only for the reasons given. -/
def VmMay (s : VmState) (e : VmEvent) (t : VmState) (ops : List MemOp) : Prop :=
  match e, t.ret with
  | .allocproc i, .ok true => ops = [.start i]
  -- the trapframe, and a page table with the tables for two pages
  | .allocproc _, .ok false => ops = [] ∧ s.Short 6
  | .fork i j, .ok true => ops = [.copy i j]
  -- and each page with the tables for it
  | .fork i _, .ok false => ops = [] ∧ s.Short (6 + 3 * pageCount (s.proc i).sz)
  | .freeproc i, .done => ops = [.stop i]
  | .exec i file argv, .ok true => ∃ img, execImage file argv = some img ∧ ops = [.load i img]
  -- a page table, and each page of the image with the tables for it
  | .exec _ file argv, .ok false => ops = [] ∧
      ∀ img, execImage file argv = some img → s.Short (5 + 3 * pageCount img.1)
  | .sbrk i n _, .ok true => ops = [.resize i n] ∧ (s.proc i).sz + n ≤ trapframe
  | .sbrk i n t, .ok false => ops = [] ∧ (trapframe < (s.proc i).sz + n ∨
      t = 1 ∧ s.Short (3 * (pageCount ((s.proc i).sz + n.toNat) - pageCount (s.proc i).sz)))
  | .fault _ _, .ok true => ops = []
  | .fault i va, .ok false => ops = [] ∧ ((s.proc i).sz ≤ va ∨
      (∃ r, (s.proc i).pagetable = some r ∧ ismapped s.phys r (pgrounddown va) = some true) ∨
      s.Short 3)
  | .store i va b, .ok true => ops = [.write i va [b]]
  -- `vmfault` makes no page for an address beyond the size, though the page is seen
  | .store i va _, .ok false => ops = [] ∧ (¬ s.Writable i va ∨ (s.proc i).sz ≤ va ∨ s.Short 3)
  | .copyout i dstva src, .ok true => ops = [.write i dstva src]
  | .copyout i dstva src, .ok false => ∃ k < src.length, ops = [.write i dstva (src.take k)] ∧
      (¬ s.Writable i (dstva + k) ∨ s.Short (3 * pageCount (dstva % pgsize + src.length)))
  | .copyin i srcva len, .bytes (some bytes) => bytes.length = len ∧ ops = [.read i srcva bytes]
  | .copyin i srcva len, .bytes none => ops = [] ∧ ((∃ k < len, s.Unseen i (srcva + k)) ∨
      s.Short (3 * pageCount (srcva % pgsize + len)))
  | .pipealloc, .ok true => ops = []
  | .pipealloc, .ok false => ops = [] ∧ s.Short 1
  | .pipeclose _, .done => ops = []
  | _, _ => False

/-- The process whose memory an operation changes. -/
def MemOp.slot : MemOp → Option (Fin nproc)
  | .start i | .stop i | .copy _ i | .load i _ | .resize i _ | .write i _ _ => some i
  | .read _ _ _ => none

/-- The process whose memory a call may change. -/
def VmEvent.slot : VmEvent → Option (Fin nproc)
  | .allocproc i | .fork _ i | .freeproc i | .exec i _ _ | .sbrk i _ _ | .store i _ _
  | .copyout i _ _ => some i
  | .fault _ _ | .copyin _ _ _ | .pipealloc | .pipeclose _ => none

section Slots

variable {op : MemOp} {ops : List MemOp} {a b : Memories} {e : VmEvent} {s t : VmState}
variable {j : Fin nproc}

/-- A step changes the memory of its own slot only. -/
theorem memoriesStep_of_ne (h : memoriesStep op a = some b) (hj : op.slot ≠ some j) :
    b j = a j := by
  have hupdate : ∀ {i : Fin nproc} {v : Option View}, some i ≠ some j →
      Function.update a i v j = a j := fun hi =>
    Function.update_of_ne (fun hji => hi (congrArg some hji.symm)) ..
  cases op with
  | start i | stop i | copy i k =>
      cases h
      exact hupdate hj
  | load i img | resize i n =>
      obtain ⟨v, -, hb⟩ := Option.bind_eq_some_iff.mp h
      cases hb
      exact hupdate hj
  | write i dst src =>
      obtain ⟨v, -, hb⟩ := Option.bind_eq_some_iff.mp h
      obtain ⟨-, hb⟩ := Option.ite_none_right_eq_some.mp hb
      cases hb
      exact hupdate hj
  | read i src bytes =>
      obtain ⟨v, -, hb⟩ := Option.bind_eq_some_iff.mp h
      obtain ⟨-, hb⟩ := Option.ite_none_right_eq_some.mp hb
      cases hb
      rfl

/-- So does a run. -/
theorem run_memoriesStep_of_ne (h : Lib.run memoriesStep ops a = some b)
    (hj : ∀ op ∈ ops, op.slot ≠ some j) : b j = a j := by
  induction ops generalizing a with
  | nil =>
      cases h
      rfl
  | cons op ops ih =>
      rw [Lib.run_cons] at h
      obtain ⟨c, hc, hrest⟩ := Option.bind_eq_some_iff.mp h
      rw [ih hrest fun op' hop => hj op' (List.mem_cons_of_mem _ hop),
        memoriesStep_of_ne hc (hj op (List.mem_cons_self ..))]

/-- A call stands for operations on the memory it may change. -/
theorem VmMay.slot_ne (h : VmMay s e t ops) (hj : e.slot ≠ some j) :
    ∀ op ∈ ops, op.slot ≠ some j := by
  have hnone : ops = [] → ∀ op ∈ ops, op.slot ≠ some j := by
    rintro rfl op hop
    cases hop
  have hone : ∀ op', ops = [op'] → op'.slot = none ∨ op'.slot = e.slot →
      ∀ op ∈ ops, op.slot ≠ some j := by
    rintro op' rfl hslot op hop
    obtain rfl := List.mem_singleton.mp hop
    rcases hslot with hslot | hslot
    · simp [hslot]
    · rwa [hslot]
  unfold VmMay at h
  split at h
  case h_1 | h_3 | h_5 | h_12 | h_14 => exact hone _ h (Or.inr rfl)
  case h_6 =>
    obtain ⟨img, -, hops⟩ := h
    exact hone _ hops (Or.inr rfl)
  case h_8 => exact hone _ h.1 (Or.inr rfl)
  case h_15 =>
    obtain ⟨k, -, hops, -⟩ := h
    exact hone _ hops (Or.inr rfl)
  case h_16 => exact hone _ h.2 (Or.inl rfl)
  case h_10 | h_18 | h_20 => exact hnone h
  case h_21 => exact h.elim
  all_goals exact hnone h.1

end Slots

section Memories

variable {ι : Type} {kend : Nat} {s s' : Phys} {root : ι → Option Nat} {role : Roles ι}
variable {i : ι} {r n sz new tf tramp : Nat} {m m' : UserSpace}

theorem le_maxva_of_lt (hsz : sz ≤ trapframe) (hn : n * pgsize < sz) : n * pgsize < maxva :=
  Nat.lt_of_lt_of_le hn (Nat.le_trans hsz (by decide))

/-- A process sees what its address space says. -/
theorem Holds.userView (h : Holds kend s root role none [] i r m) (hm : Proper m sz tf tramp) :
    userView s r sz = m.seen sz := by
  funext n
  rw [Kernel.userView, UserSpace.seen]
  by_cases hva : maxva ≤ n * pgsize
  · have htramp : trapframePage + 1 < n :=
      Nat.lt_of_mul_lt_mul_right (Nat.lt_of_lt_of_le trampolinePage_lt hva)
    have hsize := pageCount_le hm.size
    have hnone : m n = none := hm.beyond n (by omega) (by omega) (by omega)
    rw [if_pos hva, hnone]
    refine (if_neg fun hlt => ?_).symm
    exact absurd (le_maxva_of_lt hm.size hlt) (Nat.not_lt.mpr hva)
  · rw [if_neg hva]
    have hlt := Nat.not_le.mp hva
    cases hmn : m n with
    | none =>
        rw [h.lookup_none hlt hmn]
    | some l =>
        obtain ⟨leaf, flags⟩ := l
        cases leaf with
        | page data =>
            obtain ⟨f, hlookup, -, hdata⟩ := h.lookup_page hlt hmn
            rw [hlookup]
            simp only [hdata]
        | shared f =>
            rw [h.lookup_shared hlt hmn]
            simp only [(hm.shared_cases hmn).2]
            split <;> rfl

/-! ## New sizes -/

/-- Pages between the sizes come as zeros, or not at all yet, or go. -/
theorem Proper.resize (hm : Proper m sz tf tramp) (hnew : new ≤ Kernel.trapframe)
    (hkeep : ∀ x, x < pageCount sz → x < pageCount new → m' x = m x)
    (hfresh : ∀ x, pageCount sz ≤ x → x < pageCount new →
      m' x = none ∨ m' x = some (.page Page.zero, .user))
    (hgone : ∀ x, pageCount new ≤ x → x < pageCount sz → m' x = none)
    (hrest : ∀ x, pageCount new ≤ x → pageCount sz ≤ x → m' x = m x) :
    Proper m' new tf tramp ∧ m'.seen new = (m.seen sz).resize sz new := by
  have hle := pageCount_le hm.size
  have hle' := pageCount_le hnew
  -- the pages below the new size are kept or fresh, and none is beyond
  have hproper : Proper m' new tf tramp := by
    refine ⟨hnew, ?_, ?_, ?_, ?_⟩
    · intro x hx hxnew f flags hxf
      by_cases hxsz : x < pageCount sz
      · rw [hkeep x hxsz hxnew] at hxf
        exact hm.own x hx hxsz f flags hxf
      · rcases hfresh x (Nat.not_lt.mp hxsz) hxnew with hnone | hzero
        · rw [hnone] at hxf
          cases hxf
        · rw [hzero] at hxf
          cases hxf
    · rw [hrest _ hle' hle, hm.trapframe]
    · rw [hrest _ (Nat.le_succ_of_le hle') (Nat.le_succ_of_le hle), hm.trampoline]
    · intro x hx htf htramp
      by_cases hxsz : x < pageCount sz
      · exact hgone x hx hxsz
      · rw [hrest x hx (Nat.not_lt.mp hxsz), hm.beyond x (Nat.not_lt.mp hxsz) htf htramp]
  refine ⟨hproper, ?_⟩
  funext n
  rw [Seen.resize]
  by_cases hn : pageCount new ≤ n
  · rw [if_pos hn, hproper.seen_beyond hn]
  · have hlt := Nat.not_le.mp hn
    have hpos := lt_pageCount.mp hlt
    rw [if_neg hn]
    by_cases hnsz : pageCount sz ≤ n
    · rw [if_pos hnsz]
      rcases hfresh n hnsz hlt with hnone | hzero
      · rw [UserSpace.seen, hnone]
        exact if_pos hpos
      · rw [UserSpace.seen_page hzero rfl]
        rfl
    · have hltsz := Nat.not_le.mp hnsz
      rw [if_neg hnsz, UserSpace.seen, hkeep n hltsz hlt, UserSpace.seen, if_pos hpos,
        if_pos (lt_pageCount.mp hltsz)]

/-- Memory of size `sz` that keeps its size. -/
theorem Proper.seen_resize_self (hm : Proper m sz tf tramp) :
    (m.seen sz).resize sz sz = m.seen sz := by
  funext n
  rw [Seen.resize]
  by_cases hn : pageCount sz ≤ n
  · rw [if_pos hn, hm.seen_beyond hn]
  · rw [if_neg hn, if_neg hn]

end Memories

/-! ## sbrk -/

section Sbrk

variable {ι : Type} {kend : Nat} {s : Phys} {root : ι → Option Nat}
variable {role : Roles ι} {i : ι} {r sz tf tramp : Nat} {m : UserSpace}

/-- What a call that changes the size of a process may do.  If it fails, there is
    no room for the new size in the address space, or too little memory (`short`). -/
def Resizes (kend : Nat) (s : Phys) (root : ι → Option Nat) (role : Roles ι) (i : ι) (r sz : Nat)
    (m : UserSpace) (tf tramp : Nat) (n : Int) (short : Prop) (res : Option (Phys × Option Nat)) :
    Prop :=
  ∃ s' role', ∃ ok : Bool, res = some (s', if ok then some (resized sz n) else none) ∧
    Within i s role s' role' ∧
    if ok then ∃ m', Holds kend s' root role' none [] i r m' ∧
        Proper m' (resized sz n) tf tramp ∧ m'.seen (resized sz n) =
          (m.seen sz).resize sz (resized sz n)
      else Holds kend s' root role' none [] i r m ∧ (trapframe < sz + n ∨ short)

/-- The reason of a failure may be weakened. -/
theorem Resizes.imp {short short' : Prop} {n : Int} {res : Option (Phys × Option Nat)}
    (h : Resizes kend s root role i r sz m tf tramp n short res) (hshort : short → short') :
    Resizes kend s root role i r sz m tf tramp n short' res := by
  obtain ⟨s', role', ok, hres, hin, h'⟩ := h
  refine ⟨s', role', ok, hres, hin, ?_⟩
  cases ok with
  | true => exact h'
  | false => exact ⟨h'.1, h'.2.imp_right hshort⟩

/-- `n` more bytes may need more frames than are free. -/
def ShortToGrow (s : Phys) (sz : Nat) (n : Int) : Prop :=
  s.freelist.length < 3 * (pageCount (sz + n.toNat) - pageCount sz)

/-- If the new size ends below the trap frame, so does the sum. -/
theorem le_of_resized {n : Int} (h : resized sz n ≤ trapframe) : sz + n ≤ trapframe := by
  rw [resized] at h
  split at h <;> omega

/-- A size that does not shrink is the sum. -/
theorem resized_of_nonneg {n : Int} (hn : 0 ≤ n) : resized sz n = sz + n.toNat := by
  rw [resized, if_neg (by omega)]
  omega

/-- `growproc` fails only if the process grows. -/
theorem Holds.growproc (h : Holds kend s root role none [] i r m) (hm : Proper m sz tf tramp)
    {n : Int} (hn : -2 ^ 31 ≤ n) :
    Resizes kend s root role i r sz m tf tramp n (0 < n ∧ ShortToGrow s sz n)
      (Vm.growproc kend s r sz n) := by
  rw [Vm.growproc]
  rcases Int.lt_trichotomy n 0 with hneg | rfl | hpos
  · rw [if_neg (by omega), if_pos hneg]
    have hsize := pageCount_le hm.size
    obtain ⟨s', role', hdealloc, hin, h'⟩ := h.uvmdealloc sz ((sz + n) % 2 ^ 64).toNat
      (Nat.le_trans (Nat.mul_le_mul_right _ hsize) (by decide))
      (fun x _ hx => hm.own x (Nat.zero_le x) hx)
    -- the sum wraps to a size above the old one, or is the new size
    have hmin : min sz ((sz + n) % 2 ^ 64).toNat = resized sz n := by
      have hbound : sz ≤ 2 ^ 39 := Nat.le_trans hm.size (by decide)
      rw [resized]
      split <;> omega
    have hcount : pageCount (resized sz n) ≤ pageCount sz :=
      pageCount_mono (by rw [← hmin]; exact Nat.min_le_left ..)
    have hcut : ∀ x, pageCount ((sz + n) % 2 ^ 64).toNat ≤ x ∧ x < pageCount sz ↔
        pageCount (resized sz n) ≤ x ∧ x < pageCount sz := by
      intro x
      rw [← hmin]
      rcases Nat.le_total sz ((sz + n) % 2 ^ 64).toNat with hle | hle
      · have hmono := pageCount_mono hle
        rw [Nat.min_eq_left hle]
        omega
      · rw [Nat.min_eq_right hle]
    have hsmall : resized sz n ≤ trapframe := by
      rw [← hmin]
      exact Nat.le_trans (Nat.min_le_left ..) hm.size
    refine ⟨s', role', true, ?_, hin, _, h', ?_⟩
    · simp only [hdealloc, hmin, Option.bind_eq_bind, Option.bind_some, if_true]
    · refine hm.resize hsmall (fun x hx hxnew => ?_) (fun x hx hxnew => by omega)
        (fun x hx hxsz => ?_) (fun x hx hxsz => ?_)
      · have hiff := hcut x
        rw [UserSpace.without, if_neg (by omega)]
      · have hiff := hcut x
        rw [UserSpace.without, if_pos (by omega)]
      · have hiff := hcut x
        rw [UserSpace.without, if_neg (by omega)]
  · have hsame : resized sz 0 = sz := by simp [resized]
    rw [if_neg (by omega), if_neg (by omega)]
    refine ⟨s, role, true, by rw [hsame]; rfl, Within.refl, m, h, ?_, ?_⟩
    · rwa [hsame]
    · rw [hsame, hm.seen_resize_self]
  · have hnew : resized sz n = sz + n.toNat := resized_of_nonneg (Int.le_of_lt hpos)
    rw [if_pos hpos]
    -- the trap frame is in the way
    by_cases hlarge : sz + n.toNat > trapframe
    · refine ⟨s, role, false, ?_, Within.refl, h, Or.inl (by omega)⟩
      simp only [hlarge, if_true]
      rfl
    · have hle := Nat.not_lt.mp hlarge
      have hcount : pageCount sz ≤ pageCount (sz + n.toNat) := pageCount_mono (Nat.le_add_right ..)
      have hsize := pageCount_le hle
      obtain ⟨s', role', ok, halloc, hin, h'⟩ := h.uvmalloc ⟨false, true, false, false⟩
        (Nat.le_add_right sz n.toNat) (by omega)
        (fun x hx hxtf => hm.beyond x hx (by omega) (by omega))
      refine ⟨s', role', ok, ?_, hin, ?_⟩
      · simp only [hlarge, if_false, halloc, Option.bind_eq_bind, Option.bind_some, hnew]
        cases ok with
        | false => rfl
        | true => simp only [if_true, if_neg (show sz + n.toNat ≠ 0 by omega)]
      · cases ok with
        | false =>
            have hcost := uvmalloc_costs (Nat.le_add_right sz n.toNat) (by omega) halloc
            exact ⟨h', Or.inr ⟨hpos, hcost⟩⟩
        | true =>
            obtain ⟨-, h'⟩ := h'
            refine ⟨_, h', ?_⟩
            rw [hnew]
            refine hm.resize hle (fun x hx _ => ?_) (fun x hx hxnew => Or.inr ?_)
              (fun x hx hxsz => by omega) (fun x hx hxsz => ?_)
            · rw [UserSpace.withZeros, if_neg (by omega)]
            · rw [UserSpace.withZeros, if_pos (by omega)]
              rfl
            · rw [UserSpace.withZeros, if_neg (by omega)]

/-- Only the eager `sbrk` needs frames. -/
theorem Holds.sysSbrk (h : Holds kend s root role none [] i r m) (hm : Proper m sz tf tramp)
    {n t : Int} (hn : -2 ^ 31 ≤ n) :
    Resizes kend s root role i r sz m tf tramp n (t = 1 ∧ ShortToGrow s sz n)
      (Vm.sysSbrk kend s r sz n t) := by
  rw [Vm.sysSbrk]
  by_cases heager : t = 1 ∨ n < 0
  · rw [if_pos heager]
    refine (h.growproc hm hn).imp ?_
    rintro ⟨hpos, hshort⟩
    exact ⟨heager.resolve_right (by omega), hshort⟩
  · have hnew : resized sz n = sz + n.toNat := resized_of_nonneg (by omega)
    rw [if_neg heager]
    by_cases hlarge : sz + n.toNat > trapframe
    · rw [if_pos hlarge]
      exact ⟨s, role, false, rfl, Within.refl, h, Or.inl (by omega)⟩
    · have hcount : pageCount sz ≤ pageCount (sz + n.toNat) := pageCount_mono (Nat.le_add_right ..)
      have hsize := pageCount_le (Nat.not_lt.mp hlarge)
      rw [if_neg hlarge]
      refine ⟨s, role, true, by rw [hnew]; rfl, Within.refl, m, h, ?_⟩
      rw [hnew]
      exact hm.resize (Nat.not_lt.mp hlarge) (fun _ _ _ => rfl)
        (fun x hx _ => Or.inl (hm.beyond x hx (by omega) (by omega)))
        (fun x hx hxsz => by omega) (fun _ _ _ => rfl)

end Sbrk

end G20OsLab.Kernel
