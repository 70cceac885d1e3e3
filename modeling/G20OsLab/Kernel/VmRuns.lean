/-
  G20OsLab.Kernel.VmRuns

  Whole runs of the virtual memory.

  `VmInv` is the invariant: every process with memory has a page table of its
  own with a proper address space in it, a trapframe of its own, and all frames
  that `kinit` freed are free or in one of the uses of `Use`.  Each call keeps it
  (`VmInv.within` for what happens within one page table), and does to the
  memories what `VmMay` allows (`vmStep_refines`).
-/

import G20OsLab.Kernel.Exec
import G20OsLab.Kernel.Step
import G20OsLab.Kernel.Memories

namespace G20OsLab.Kernel

open Lib (Frame Role Forest Intact Linked slotAt setSlot entry nodeAt)

/-! ## The invariant -/

/-- The page tables of the processes. -/
def VmState.root (s : VmState) : Fin nproc → Option Nat := fun i => (s.proc i).pagetable

/-- A slot is unused, or has a trapframe and an address space. -/
def Equipped (tramp : Nat) (role : Roles (Fin nproc)) (i : Fin nproc) (p : ProcMem)
    (m : UserSpace) : Prop :=
  (p = .unused ∧ ∀ f, role f ≠ .other (.trapframe i)) ∨
    ∃ tf r, p.trapframe = some tf ∧ p.pagetable = some r ∧
      (∀ f, role f = .other (.trapframe i) ↔ f = tf) ∧ Proper m p.sz tf tramp

/-- `frames` are the frames that were free at the start. -/
structure VmInv (kend tramp : Nat) (frames : List Nat) (s : VmState) (role : Roles (Fin nproc))
    (m : Fin nproc → UserSpace) : Prop where
  spaces : Spaces kend s.phys s.root role [] m
  kernel : ∀ f, role f = .other .kernel ↔ f ∉ frames
  trampoline : tramp ∉ frames
  equipped : ∀ i, Equipped tramp role i (s.proc i) (m i)
  pipes : ∀ f, f ∈ s.pipes ↔ role f = .other .pipe
  nodup : s.pipes.Nodup

section VmRuns

variable {kend tramp : Nat} {frames : List Nat} {s : VmState} {role role' : Roles (Fin nproc)}
variable {m : Fin nproc → UserSpace} {i j : Fin nproc} {f r sz tf va : Nat} {w : Use}
variable {phys : Phys} {ret : VmResult} {m' : UserSpace} {p : List (Fin 512)}

namespace VmState

@[simp] theorem setProc_proc {q : ProcMem} :
    (s.setProc phys i q ret).proc = Function.update s.proc i q := rfl

theorem root_setProc {q : ProcMem} :
    (s.setProc phys i q ret).root = Function.update s.root i q.pagetable := by
  funext j
  rw [root, setProc_proc]
  by_cases hji : j = i
  · rw [hji, Function.update_self, Function.update_self]
  · rw [Function.update_of_ne hji, Function.update_of_ne hji, root]

theorem setProc_self : s.setProc phys i (s.proc i) ret = s.setPhys phys ret := by
  rw [setProc, setPhys, Function.update_eq_self]

end VmState

namespace VmInv

/-- A process with a page table has a trap frame and a proper address space. -/
theorem equipped_of_pagetable (h : VmInv kend tramp frames s role m)
    (hr : (s.proc i).pagetable = some r) :
    ∃ tf, s.proc i = ⟨some tf, some r, (s.proc i).sz⟩ ∧
      (∀ f, role f = .other (.trapframe i) ↔ f = tf) ∧ Proper (m i) (s.proc i).sz tf tramp := by
  rcases h.equipped i with ⟨hunused, -⟩ | ⟨tf, r', htf, hr', hrole, hm⟩
  · rw [hunused] at hr
    cases hr
  · refine ⟨tf, ?_, hrole, hm⟩
    rw [← htf, ← hr]

/-- The memories of the processes are what their address spaces say. -/
theorem memories_eq (h : VmInv kend tramp frames s role m) :
    s.memories = fun i => (s.proc i).pagetable.map fun _ =>
      ((s.proc i).sz, (m i).seen (s.proc i).sz) := by
  funext i
  rw [VmState.memories]
  cases hr : (s.proc i).pagetable with
  | none => rfl
  | some r =>
      obtain ⟨tf, -, -, hm⟩ := h.equipped_of_pagetable hr
      rw [Option.map_some, Option.map_some, (h.spaces.holds hr).userView hm]

/-- The memory of a process with a page table is what its pages show. -/
theorem memories_some (h : VmInv kend tramp frames s role m)
    (hr : (s.proc i).pagetable = some r) :
    s.memories i = some ((s.proc i).sz, (m i).seen (s.proc i).sz) := by
  rw [h.memories_eq]
  simp only [hr, Option.map_some]

/-- What a page table leads to outside the page tables is its process's
    trapframe, or the trampoline. -/
theorem linked_other (h : VmInv kend tramp frames s role m) (hf : role f = .other w)
    (hlinked : Linked s.phys.mem s.root role j p f) :
    w = .trapframe j ∨ f = tramp := by
  obtain ⟨r, n, flags, hr, hn, rfl, he⟩ := h.spaces.toOwned.entry_of_linked hf hlinked
  obtain ⟨tf, -, hrole, hm⟩ := h.equipped_of_pagetable hr
  have hshared : m j n = some (.shared f, flags) := by
    rw [(h.spaces.holds hr).apply hn, he, Option.map_some, leafOf_other hf]
  rcases (hm.shared_cases hshared).1 with ⟨-, hftf⟩ | ⟨-, htramp⟩
  · left
    have htf := (hrole f).mpr hftf
    rw [hf] at htf
    exact Role.other.inj htf
  · exact Or.inr htramp

/-- The invariant after a call that changed slot `i`. -/
theorem update (h : VmInv kend tramp frames s role m) (q : ProcMem) (ret : VmResult)
    (hspaces : Spaces kend phys (Function.update s.root i q.pagetable) role' []
      (Function.update m i m'))
    (hother : ∀ u, u ≠ .trapframe i → ∀ f, role' f = .other u ↔ role f = .other u)
    (hq : Equipped tramp role' i q m') :
    VmInv kend tramp frames (s.setProc phys i q ret) role' (Function.update m i m') where
  spaces := by
    rw [VmState.root_setProc]
    exact hspaces
  kernel := by
    intro f
    rw [hother .kernel (by simp), h.kernel]
  trampoline := h.trampoline
  equipped := by
    intro j
    rw [VmState.setProc_proc]
    by_cases hji : j = i
    · rw [hji, Function.update_self, Function.update_self]
      exact hq
    · rw [Function.update_of_ne hji, Function.update_of_ne hji]
      have hne : Use.trapframe j ≠ .trapframe i := fun heq => hji (Use.trapframe.inj heq)
      rcases h.equipped j with ⟨hunused, hnone⟩ | ⟨tf, r, htf, hr, hrole, hm⟩
      · exact Or.inl ⟨hunused, fun f hf => hnone f ((hother _ hne f).mp hf)⟩
      · exact Or.inr ⟨tf, r, htf, hr, fun f => (hother _ hne f).trans (hrole f), hm⟩
  pipes := by
    intro f
    rw [hother .pipe (by simp)]
    exact h.pipes f
  nodup := h.nodup

/-- The invariant after a call that did something within the page table of
    process `i`. -/
theorem within (h : VmInv kend tramp frames s role m) (q : ProcMem) (ret : VmResult)
    (hp : s.proc i = ⟨some tf, some r, (s.proc i).sz⟩)
    (hrole : ∀ f, role f = .other (.trapframe i) ↔ f = tf)
    (hin : Within i s.phys role phys role')
    (h' : Holds kend phys s.root role' none [] i r m') (hm' : Proper m' sz tf tramp)
    (hq : q = ⟨some tf, some r, sz⟩) :
    VmInv kend tramp frames (s.setProc phys i q ret) role' (Function.update m i m') := by
  have hroot : Function.update s.root i (some r) = s.root := by
    have hr : s.root i = some r := by
      rw [VmState.root, hp]
    rw [← hr, Function.update_eq_self]
  subst hq
  refine h.update _ ret ?_ (fun u _ f => hin.other_iff) (Or.inr ⟨tf, r, rfl, rfl, fun f => ?_, hm'⟩)
  · rw [hroot]
    exact h.spaces.within_holds hin h'
  · rw [hin.other_iff]
    exact hrole f

end VmInv

/-! ## A byte written by a process -/

section Store

variable {root : Fin nproc → Option Nat} {data : Page} {flags : PteFlags} {b : UInt8}

/-- The entry for an address is that for its page. -/
theorem Holds.lookup_page_start (h : Holds kend phys root role none [] i r m') (hva : va < maxva) :
    lookup phys r va = lookup phys r (va / pgsize * pgsize) := by
  have hdiv : va / pgsize * pgsize < maxva := Nat.lt_of_le_of_lt (Nat.div_mul_le_self ..) hva
  rw [h.lookup_eq h.intact h.root_eq hva, h.lookup_eq h.intact h.root_eq hdiv, leafPath_eq]
  rfl

/-- A store to a writable page. -/
theorem Holds.storeByte_page (h : Holds kend phys root role none [] i r m')
    (hm : Proper m' sz tf tramp) (hpage : m' (va / pgsize) = some (.page data, flags))
    (hflags : (flags.u && flags.w) = true) :
    ∃ s' m'', Vm.storeByte phys r va b = some (s', true) ∧
      Accesses kend root [] i r sz tf tramp phys role m' s' role m'' ∧
      m''.seen sz = (m'.seen sz).write va [b] := by
  obtain ⟨hu, -⟩ := Bool.and_eq_true_iff.mp hflags
  have hdiv : va / pgsize * pgsize < maxva := lt_maxva (hm.user_lt (hm.lt_of_page hpage))
  have hva : va < maxva := by
    have hmaxva : maxva = 2 ^ 38 := rfl
    unfold pgsize at hdiv
    omega
  have hmod : va % pgsize < pgsize := Nat.mod_lt _ (by decide)
  obtain ⟨f, hfound, hf, hdata⟩ := h.lookup_page hdiv hpage
  refine ⟨_, _, ?_, .write h hm hpage hu hf (data.write (va % pgsize) [b]), ?_⟩
  · rw [Vm.storeByte, if_neg (Nat.not_le.mpr hva), h.lookup_page_start hva, hfound]
    simp only [Option.bind_eq_bind, Option.bind_some, hflags, if_true, Phys.loadPage_eq hdata,
      Phys.storePage_eq hdata]
  · rw [UserSpace.seen_update hu, Seen.write_page hmod, UserSpace.seen_page hpage hu,
      Option.map_some]

/-- A store to anything else. -/
theorem Holds.storeByte_none (h : Holds kend phys root role none [] i r m')
    (hm : Proper m' sz tf tramp)
    (hnot : ∀ data flags, m' (va / pgsize) = some (.page data, flags) →
      (flags.u && flags.w) = false) :
    Vm.storeByte phys r va b = some (phys, false) := by
  rw [Vm.storeByte]
  by_cases hva : maxva ≤ va
  · rw [if_pos hva]
  · have hlt := Nat.not_le.mp hva
    have hdiv : va / pgsize * pgsize < maxva := Nat.lt_of_le_of_lt (Nat.div_mul_le_self ..) hlt
    rw [if_neg hva, h.lookup_page_start hlt]
    cases hpage : m' (va / pgsize) with
    | none =>
        rw [h.lookup_none hdiv hpage]
        rfl
    | some l =>
        obtain ⟨leaf, flags⟩ := l
        cases leaf with
        | shared f =>
            rw [h.lookup_shared hdiv hpage]
            simp only [Option.bind_eq_bind, Option.bind_some, (hm.shared_cases hpage).2,
              Bool.false_and, Bool.false_eq_true, if_false]
        | page data =>
            obtain ⟨f, hfound, -, -⟩ := h.lookup_page hdiv hpage
            rw [hfound]
            simp only [Option.bind_eq_bind, Option.bind_some, hnot data flags hpage,
              Bool.false_eq_true, if_false]

/-- A store is done if the page may be written, and is there or comes with the
    page fault: then the address is below the size, and three frames are free. -/
theorem Holds.userStore (h : Holds kend phys root role none [] i r m')
    (hm : Proper m' sz tf tramp) (va : Nat) (b : UInt8) :
    ∃ s' role' m'', ∃ ok : Bool, Vm.userStore kend phys ⟨r, sz⟩ va b = some (s', ok) ∧
      Accesses kend root [] i r sz tf tramp phys role m' s' role' m'' ∧
      if ok then (m'.seen sz).Writable va ∧ m''.seen sz = (m'.seen sz).write va [b]
        else m''.seen sz = m'.seen sz ∧
          (¬ (m'.seen sz).Writable va ∨ sz ≤ va ∨ phys.freelist.length < 3) := by
  rw [Vm.userStore]
  -- the page takes the store, or traps and is faulted in first
  by_cases hpage : ∃ data flags, m' (va / pgsize) = some (.page data, flags) ∧
      (flags.u && flags.w) = true
  · obtain ⟨data, flags, hpage, hflags⟩ := hpage
    obtain ⟨s', m'', hstore, hacc, hseen⟩ := h.storeByte_page hm (b := b) hpage hflags
    obtain ⟨hu, hw⟩ := Bool.and_eq_true_iff.mp hflags
    refine ⟨s', role, m'', true, ?_, hacc, ⟨data, ?_⟩, hseen⟩
    · simp only [hstore, Option.bind_eq_bind, Option.bind_some]
    · rw [UserSpace.seen_page hpage hu, hw]
  · have hnot : ∀ data flags, m' (va / pgsize) = some (.page data, flags) →
        (flags.u && flags.w) = false := by
      intro data flags hdata
      by_contra hflags
      exact hpage ⟨data, flags, hdata, by simpa using hflags⟩
    obtain ⟨s', role', m'', res, hfault, hacc, hseen, hcost, hres⟩ := h.vmfault hm va
    simp only [h.storeByte_none hm hnot, hfault, Option.bind_eq_bind, Option.bind_some]
    cases res with
    | none =>
        refine ⟨s', role', m'', false, rfl, hacc, hseen, ?_⟩
        rw [or_iff_not_imp_left, Decidable.not_not]
        rintro ⟨data, hw⟩
        rw [or_iff_not_imp_left, Nat.not_le]
        intro hva
        -- a page that was mapped and seen writable would have taken the store
        have hmapped : ¬ m'.Mapped (va / pgsize) := by
          rintro ⟨data', flags, hdata, hu⟩
          rw [UserSpace.seen_page hdata hu, Option.some.injEq, Prod.mk.injEq] at hw
          have hfalse := hnot data' flags hdata
          rw [hu, hw.2] at hfalse
          cases hfalse
        have hsome : m'.seen sz (va / pgsize) ≠ none := by
          rw [hw]
          simp
        exact hcost hva (UserSpace.absent_of_seen hsome hmapped).2
    | some f =>
        obtain ⟨hva, hnone, hnew, -⟩ := hres f rfl
        have hlt : va / pgsize * pgsize < sz :=
          Nat.lt_of_le_of_lt (Nat.div_mul_le_self ..) hva
        obtain ⟨s'', m3, hstore, hacc', hseen'⟩ :=
          hacc.holds.storeByte_page hacc.proper (b := b) hnew rfl
        refine ⟨s'', role', m3, true, hstore, hacc.trans hacc', ⟨Page.zero, ?_⟩, ?_⟩
        · rw [UserSpace.seen, hnone]
          exact if_pos hlt
        · rw [hseen', hseen]

end Store

/-! ## Steps -/

/-- A call can be made, keeps the invariant, and does to the memories what it
    may. -/
def StepOk (kend tramp : Nat) (frames : List Nat) (e : VmEvent) (s : VmState) : Prop :=
  ∃ t ops role m, vmStep kend tramp e s = some t ∧ VmMay s e t ops ∧
    VmInv kend tramp frames t role m ∧ Lib.run memoriesStep ops s.memories = some t.memories

namespace VmInv

variable {q : ProcMem} {t : VmState}

/-- The memories after a call that changed slot `i`. -/
theorem memories_setProc (h : VmInv kend tramp frames s role m)
    (h' : VmInv kend tramp frames (s.setProc phys i q ret) role' (Function.update m i m')) :
    (s.setProc phys i q ret).memories = Function.update s.memories i
      (q.pagetable.map fun _ => (q.sz, m'.seen q.sz)) := by
  rw [h'.memories_eq, h.memories_eq]
  funext j
  by_cases hji : j = i
  · subst hji
    simp only [VmState.setProc_proc, Function.update_self]
  · simp only [VmState.setProc_proc, Function.update_of_ne hji]

/-- Only the slots show in the memories. -/
theorem memories_congr (h : VmInv kend tramp frames s role m)
    (h' : VmInv kend tramp frames t role' m) (hproc : t.proc = s.proc) :
    t.memories = s.memories := by
  rw [h'.memories_eq, h.memories_eq, hproc]

/-- The invariant and the memories after accesses to the memory of process `i`. -/
theorem access (h : VmInv kend tramp frames s role m) (ret : VmResult)
    (hp : s.proc i = ⟨some tf, some r, (s.proc i).sz⟩)
    (hrole : ∀ f, role f = .other (.trapframe i) ↔ f = tf)
    (hacc : Accesses kend s.root [] i r (s.proc i).sz tf tramp s.phys role (m i) phys role' m') :
    VmInv kend tramp frames (s.setPhys phys ret) role' (Function.update m i m') ∧
      (s.setPhys phys ret).memories =
        Function.update s.memories i (some ((s.proc i).sz, m'.seen (s.proc i).sz)) := by
  have hkept := h.within _ ret hp hrole hacc.within hacc.holds hacc.proper hp
  have hmem := h.memories_setProc hkept
  rw [VmState.setProc_self] at hkept hmem
  refine ⟨hkept, hmem.trans ?_⟩
  rw [hp, Option.map_some]

/-- The same, where nothing of it is seen. -/
theorem access_unseen (h : VmInv kend tramp frames s role m) (ret : VmResult)
    (hp : s.proc i = ⟨some tf, some r, (s.proc i).sz⟩)
    (hrole : ∀ f, role f = .other (.trapframe i) ↔ f = tf)
    (hacc : Accesses kend s.root [] i r (s.proc i).sz tf tramp s.phys role (m i) phys role' m')
    (hseen : m'.seen (s.proc i).sz = (m i).seen (s.proc i).sz) :
    VmInv kend tramp frames (s.setPhys phys ret) role' (Function.update m i m') ∧
      Lib.run memoriesStep [] s.memories = some (s.setPhys phys ret).memories := by
  obtain ⟨hkept, hmem⟩ := h.access ret hp hrole hacc
  have hr : (s.proc i).pagetable = some r := by
    rw [hp]
  refine ⟨hkept, ?_⟩
  rw [Lib.run_nil, hmem, hseen, ← h.memories_some hr, Function.update_eq_self]

/-- A process may write what its address space says. -/
theorem writable_iff (h : VmInv kend tramp frames s role m) (hr : (s.proc i).pagetable = some r) :
    s.Writable i va ↔ ((m i).seen (s.proc i).sz).Writable va := by
  rw [VmState.Writable, h.memories_some hr]
  constructor
  · rintro ⟨_, _, ⟨⟩, hw⟩
    exact hw
  · intro hw
    exact ⟨_, _, rfl, hw⟩

/-- Bytes that may be written are written. -/
theorem run_write (h : VmInv kend tramp frames s role m) (hr : (s.proc i).pagetable = some r)
    {dst : Nat} {src : List UInt8}
    (hw : ∀ k < src.length, ((m i).seen (s.proc i).sz).Writable (dst + k)) :
    Lib.run memoriesStep [.write i dst src] s.memories = some (Function.update s.memories i
      (some ((s.proc i).sz, ((m i).seen (s.proc i).sz).write dst src))) := by
  rw [Lib.run_singleton, memoriesStep, h.memories_some hr]
  exact if_pos hw

/-! ### Calls of one process -/

/-- `sbrk` resizes the memory, or fails and leaves it. -/
theorem sbrk (h : VmInv kend tramp frames s role m) {n t : Int}
    (hallowed : (VmEvent.sbrk i n t).Allowed s) : StepOk kend tramp frames (.sbrk i n t) s := by
  obtain ⟨hsome, hn, -⟩ := hallowed
  obtain ⟨r, hr⟩ := Option.ne_none_iff_exists'.mp hsome
  obtain ⟨tf, hp, hrole, hm⟩ := h.equipped_of_pagetable hr
  obtain ⟨s', role', ok, hcall, hin, h'⟩ := (h.spaces.holds hr).sysSbrk hm (t := t) hn
  cases ok with
  | false =>
      obtain ⟨h', hwhy⟩ := h'
      have hstep : vmStep kend tramp (.sbrk i n t) s = some (s.setPhys s' (.ok false)) := by
        simp only [vmStep, hr, hcall, Option.bind_eq_bind, Option.bind_some]
        rfl
      obtain ⟨hkept, hrun⟩ :=
        h.access_unseen (.ok false) hp hrole ⟨hin, h', hm, fun _ => id⟩ rfl
      exact ⟨_, [], _, _, hstep, ⟨rfl, hwhy⟩, hkept, hrun⟩
  | true =>
      obtain ⟨m', h', hm', hseen⟩ := h'
      have hstep : vmStep kend tramp (.sbrk i n t) s = some (s.setProc s' i
          ⟨some tf, some r, resized (s.proc i).sz n⟩ (.ok true)) := by
        simp only [vmStep, hr, hcall, Option.bind_eq_bind, Option.bind_some, if_true]
        rw [hp]
      have hkept := h.within _ (.ok true) hp hrole hin h' hm' rfl
      refine ⟨_, [.resize i n], _, _, hstep, ⟨rfl, le_of_resized hm'.size⟩, hkept, ?_⟩
      rw [h.memories_setProc hkept, Lib.run_singleton, memoriesStep, h.memories_some hr, hseen]
      rfl

/-- A page fault changes nothing that is seen. -/
theorem fault (h : VmInv kend tramp frames s role m) (hallowed : (VmEvent.fault i va).Allowed s) :
    StepOk kend tramp frames (.fault i va) s := by
  obtain ⟨r, hr⟩ := Option.ne_none_iff_exists'.mp hallowed
  obtain ⟨tf, hp, hrole, hm⟩ := h.equipped_of_pagetable hr
  obtain ⟨s', role', m', res, hcall, hacc, hseen, hcost, hres⟩ :=
    (h.spaces.holds hr).vmfault hm va
  have hstep : vmStep kend tramp (.fault i va) s = some (s.setPhys s' (.ok res.isSome)) := by
    simp only [vmStep, hr, hcall, Option.bind_eq_bind, Option.bind_some]
  obtain ⟨hinv, hrun⟩ := h.access_unseen (.ok res.isSome) hp hrole hacc hseen
  refine ⟨_, [], _, _, hstep, ?_, hinv, hrun⟩
  cases res with
  | some f => exact rfl
  | none =>
      refine ⟨rfl, ?_⟩
      by_cases hva : (s.proc i).sz ≤ va
      · exact Or.inl hva
      · right
        have hlt := Nat.not_le.mp hva
        cases hpage : (m i) (va / pgsize) with
        | none => exact Or.inr (hcost hlt hpage)
        | some l =>
            have hcount : va / pgsize < pageCount (s.proc i).sz :=
              lt_pageCount.mpr (Nat.lt_of_le_of_lt (Nat.div_mul_le_self ..) hlt)
            have hmapped := (h.spaces.holds hr).ismapped_some (lt_maxva (hm.user_lt hcount)) hpage
            exact Or.inl ⟨r, hr, by rwa [pgrounddown_eq]⟩

/-- A store writes a byte, or fails and leaves the memory. -/
theorem store (h : VmInv kend tramp frames s role m) {b : UInt8}
    (hallowed : (VmEvent.store i va b).Allowed s) : StepOk kend tramp frames (.store i va b) s := by
  obtain ⟨r, hr⟩ := Option.ne_none_iff_exists'.mp hallowed
  obtain ⟨tf, hp, hrole, hm⟩ := h.equipped_of_pagetable hr
  obtain ⟨s', role', m', ok, hcall, hacc, hseen⟩ := (h.spaces.holds hr).userStore hm va b
  have hstep : vmStep kend tramp (.store i va b) s = some (s.setPhys s' (.ok ok)) := by
    simp only [vmStep, hr, hcall, Option.bind_eq_bind, Option.bind_some]
  cases ok with
  | false =>
      obtain ⟨hseen, hwhy⟩ := hseen
      obtain ⟨hinv, hrun⟩ := h.access_unseen (.ok false) hp hrole hacc hseen
      rw [← h.writable_iff hr] at hwhy
      exact ⟨_, [], _, _, hstep, ⟨rfl, hwhy⟩, hinv, hrun⟩
  | true =>
      obtain ⟨hw, hseen⟩ := hseen
      obtain ⟨hinv, hmem⟩ := h.access (.ok true) hp hrole hacc
      refine ⟨_, [.write i va [b]], _, _, hstep, rfl, hinv, ?_⟩
      rw [h.run_write hr, hmem, hseen]
      intro k hk
      obtain rfl : k = 0 := Nat.lt_one_iff.mp hk
      exact hw

/-- `copyout` writes the bytes, or stops before the first that it cannot
    write. -/
theorem copyout (h : VmInv kend tramp frames s role m) {dstva : Nat} {src : List UInt8}
    (hallowed : (VmEvent.copyout i dstva src).Allowed s) :
    StepOk kend tramp frames (.copyout i dstva src) s := by
  obtain ⟨r, hr⟩ := Option.ne_none_iff_exists'.mp hallowed
  obtain ⟨tf, hp, hrole, hm⟩ := h.equipped_of_pagetable hr
  have hown : (⟨r, (s.proc i).sz⟩ : Image) = ⟨r, (s.proc i).sz⟩ ∨
      ∀ a, dstva ≤ a → a < dstva + src.length → (m i).Mapped (a / pgsize) := Or.inl rfl
  obtain ⟨s', role', m', ok, k, hcall, hacc, hseen, hw, hk⟩ :=
    (h.spaces.holds hr).copyout hm hown
  have hstep : vmStep kend tramp (.copyout i dstva src) s = some (s.setPhys s' (.ok ok)) := by
    simp only [vmStep, hr, hcall, Option.bind_eq_bind, Option.bind_some]
  have hwritable : ∀ c < (src.take k).length,
      ((m i).seen (s.proc i).sz).Writable (dstva + c) := by
    intro c hc
    rw [List.length_take] at hc
    exact hw _ (Nat.le_add_right ..) (by omega)
  obtain ⟨hinv, hmem⟩ := h.access (.ok ok) hp hrole hacc
  have hrun := h.run_write hr hwritable
  rw [← hseen, ← hmem] at hrun
  refine ⟨_, [.write i dstva (src.take k)], _, _, hstep, ?_, hinv, hrun⟩
  cases ok with
  | false =>
      obtain ⟨hlt, hwhy⟩ := hk
      rw [← h.writable_iff hr] at hwhy
      exact ⟨k, hlt, rfl, hwhy.imp_right And.right⟩
  | true =>
      have hall : k = src.length := hk
      rw [hall, List.take_length]
      rfl

/-- `copyin` reads the bytes that are there, or fails. -/
theorem copyin (h : VmInv kend tramp frames s role m) {srcva len : Nat}
    (hallowed : (VmEvent.copyin i srcva len).Allowed s) :
    StepOk kend tramp frames (.copyin i srcva len) s := by
  obtain ⟨r, hr⟩ := Option.ne_none_iff_exists'.mp hallowed
  obtain ⟨tf, hp, hrole, hm⟩ := h.equipped_of_pagetable hr
  obtain ⟨s', role', m', res, hcall, hacc, hseen, hread, hwhy⟩ :=
    (h.spaces.holds hr).copyin hm srcva len
  have hstep : vmStep kend tramp (.copyin i srcva len) s = some (s.setPhys s' (.bytes res)) := by
    simp only [vmStep, hr, hcall, Option.bind_eq_bind, Option.bind_some]
  obtain ⟨hinv, hrun⟩ := h.access_unseen (.bytes res) hp hrole hacc hseen
  cases res with
  | none =>
      refine ⟨_, [], _, _, hstep, ⟨rfl, (hwhy rfl).imp_left ?_⟩, hinv, hrun⟩
      rintro ⟨k, hk, hnone⟩
      exact ⟨k, hk, _, _, h.memories_some hr, hnone⟩
  | some bytes =>
      have hbytes := hread bytes rfl
      have hlen : bytes.length = len := by
        simpa using congrArg List.length hbytes
      refine ⟨_, [.read i srcva bytes], _, _, hstep, ⟨hlen, rfl⟩, hinv, ?_⟩
      rw [← hrun, Lib.run_singleton, Lib.run_nil, memoriesStep, h.memories_some hr, hlen]
      exact if_pos hbytes

/-! ### Processes come and go -/

/-- An unused slot has neither page table nor trap frame. -/
theorem unused_root (h : VmInv kend tramp frames s role m) (hp : s.proc i = .unused) :
    s.root i = none ∧ ∀ f, role f ≠ .other (.trapframe i) := by
  refine ⟨by rw [VmState.root, hp]; rfl, ?_⟩
  rcases h.equipped i with ⟨-, hnone⟩ | ⟨tf, r, -, hr, -⟩
  · exact hnone
  · rw [hp] at hr
    cases hr

/-- A call that was to make process `i`, and left nothing behind. -/
theorem failed (h : VmInv kend tramp frames s role m) (hp : s.proc i = .unused) (ret : VmResult)
    (hspaces : Spaces kend phys s.root role' [] (Function.update m i m'))
    (hother : ∀ u f, role' f = .other u ↔ role f = .other u) :
    VmInv kend tramp frames (s.setPhys phys ret) role' (Function.update m i m') ∧
      (s.setPhys phys ret).memories = s.memories := by
  obtain ⟨hroot, hnone⟩ := h.unused_root hp
  have hsame : Function.update s.root i ProcMem.unused.pagetable = s.root := by
    rw [ProcMem.unused, ← hroot, Function.update_eq_self]
  have hkept := h.update .unused ret (by rwa [hsame])
    (fun u _ => hother u) (Or.inl ⟨rfl, fun f hf => hnone f ((hother _ f).mp hf)⟩)
  have hmem := h.memories_setProc hkept
  have hview : s.memories i = none := by
    rw [VmState.memories, hp]
    rfl
  rw [← hp, VmState.setProc_self] at hkept hmem
  refine ⟨hkept, hmem.trans ?_⟩
  rw [hp, ProcMem.unused, Option.map_none, ← hview, Function.update_eq_self]

/-- A call that made process `i`. -/
theorem made (h : VmInv kend tramp frames s role m) (ret : VmResult)
    (hspaces : Spaces kend phys (Function.update s.root i (some r)) role' []
      (Function.update m i m'))
    (hother : ∀ u, u ≠ .trapframe i → ∀ f, role' f = .other u ↔ role f = .other u)
    (hrole : ∀ f, role' f = .other (.trapframe i) ↔ f = tf) (hm' : Proper m' sz tf tramp) :
    VmInv kend tramp frames (s.setProc phys i ⟨some tf, some r, sz⟩ ret) role'
        (Function.update m i m') ∧
      (s.setProc phys i ⟨some tf, some r, sz⟩ ret).memories =
        Function.update s.memories i (some (sz, m'.seen sz)) := by
  have hkept := h.update ⟨some tf, some r, sz⟩ ret hspaces hother
    (Or.inr ⟨tf, r, rfl, rfl, hrole, hm'⟩)
  exact ⟨hkept, h.memories_setProc hkept⟩

/-- `allocproc` makes an empty memory. -/
theorem allocproc (h : VmInv kend tramp frames s role m)
    (hallowed : (VmEvent.allocproc i).Allowed s) :
    StepOk kend tramp frames (.allocproc i) s := by
  obtain ⟨hroot, hnone⟩ := h.unused_root hallowed
  obtain ⟨s', role', res, hcall, h'⟩ := h.spaces.allocproc hroot
    ((h.kernel tramp).mpr h.trampoline) (w := .trapframe i) (by simp) hnone
  cases res with
  | none =>
      have hstep : vmStep kend tramp (.allocproc i) s = some (s.setPhys s' (.ok false)) := by
        simp only [vmStep, hcall, Option.bind_eq_bind, Option.bind_some]
      obtain ⟨hspaces, hother⟩ := h'
      have hsame : Function.update m i (m i) = m := Function.update_eq_self ..
      rw [← hsame] at hspaces
      obtain ⟨hkept, hmem⟩ := h.failed hallowed (.ok false) hspaces hother
      exact ⟨_, [], _, _, hstep, ⟨rfl, allocproc_costs hcall⟩, hkept, by rw [Lib.run_nil, hmem]⟩
  | some q =>
      obtain ⟨tf, r, rfl, hspaces, hother, hrole, -, -⟩ := h'
      have hstep : vmStep kend tramp (.allocproc i) s =
          some (s.setProc s' i ⟨some tf, some r, 0⟩ (.ok true)) := by
        simp only [vmStep, hcall, Option.bind_eq_bind, Option.bind_some]
      obtain ⟨hkept, hmem⟩ := h.made (.ok true) hspaces hother hrole newSpace_proper
      refine ⟨_, [.start i], _, _, hstep, rfl, hkept, ?_⟩
      rw [hmem, Lib.run_singleton, memoriesStep, newSpace_seen]

/-- `fork` copies the memory of the parent. -/
theorem fork (h : VmInv kend tramp frames s role m) (hallowed : (VmEvent.fork i j).Allowed s) :
    StepOk kend tramp frames (.fork i j) s := by
  obtain ⟨hsome, hj⟩ := hallowed
  obtain ⟨r, hr⟩ := Option.ne_none_iff_exists'.mp hsome
  obtain ⟨tf, hp, -, hm⟩ := h.equipped_of_pagetable hr
  obtain ⟨hroot, hnone⟩ := h.unused_root hj
  obtain ⟨s', role', res, hcall, h'⟩ := h.spaces.fork hroot
    ((h.kernel tramp).mpr h.trampoline) (w := .trapframe j) (by simp) hnone hr hm
  cases res with
  | none =>
      have hstep : vmStep kend tramp (.fork i j) s = some (s.setPhys s' (.ok false)) := by
        simp only [vmStep, hr, hcall, Option.bind_eq_bind, Option.bind_some]
      obtain ⟨m', hspaces, hother⟩ := h'
      obtain ⟨hkept, hmem⟩ := h.failed hj (.ok false) hspaces hother
      exact ⟨_, [], _, _, hstep, ⟨rfl, fork_costs hcall⟩, hkept, by rw [Lib.run_nil, hmem]⟩
  | some q =>
      obtain ⟨tf', r', rfl, hspaces, hother, hrole⟩ := h'
      have hstep : vmStep kend tramp (.fork i j) s =
          some (s.setProc s' j ⟨some tf', some r', (s.proc i).sz⟩ (.ok true)) := by
        simp only [vmStep, hr, hcall, Option.bind_eq_bind, Option.bind_some]
      obtain ⟨hkept, hmem⟩ := h.made (.ok true) hspaces hother hrole (childSpace_proper hm)
      refine ⟨_, [.copy i j], _, _, hstep, rfl, hkept, ?_⟩
      rw [hmem, Lib.run_singleton, memoriesStep, h.memories_some hr, childSpace_seen hm]

/-- `exec` gives the process the memory of the image, or fails and leaves it as
    it was. -/
theorem exec (h : VmInv kend tramp frames s role m) {file : ExecFile} {argv : List (List UInt8)}
    (hallowed : (VmEvent.exec i file argv).Allowed s) :
    StepOk kend tramp frames (.exec i file argv) s := by
  obtain ⟨hsome, hargs⟩ := hallowed
  obtain ⟨r, hr⟩ := Option.ne_none_iff_exists'.mp hsome
  obtain ⟨tf, hp, hrole, hm⟩ := h.equipped_of_pagetable hr
  obtain ⟨s', role', r', sz', m', ok, hcall, hspaces, hother, hm', hok⟩ :=
    h.spaces.kexec hr hm ((h.kernel tramp).mpr h.trampoline) ((hrole tf).mpr rfl) file hargs
  rw [← hp] at hcall
  have hstep : vmStep kend tramp (.exec i file argv) s =
      some (s.setProc s' i ⟨some tf, some r', sz'⟩ (.ok ok)) := by
    simp only [vmStep, hcall, Option.bind_eq_bind, Option.bind_some]
  obtain ⟨hkept, hmem⟩ := h.made (.ok ok) hspaces (fun u _ f => hother f u)
    (fun f => (hother f _).trans (hrole f)) hm'
  cases ok with
  | true =>
      refine ⟨_, [.load i (sz', m'.seen sz')], _, _, hstep, ⟨_, hok, rfl⟩, hkept, ?_⟩
      rw [hmem, Lib.run_singleton, memoriesStep, h.memories_some hr]
      rfl
  | false =>
      obtain ⟨-, rfl, rfl, hshort⟩ := hok
      refine ⟨_, [], _, _, hstep, ⟨rfl, hshort⟩, hkept, ?_⟩
      rw [hmem, Lib.run_nil, ← h.memories_some hr, Function.update_eq_self]

/-- `freeproc` ends the memory of a process. -/
theorem freeproc (h : VmInv kend tramp frames s role m) :
    StepOk kend tramp frames (.freeproc i) s := by
  have hkept : ∃ s' role', Vm.freeproc kend s.phys (s.proc i) = some s' ∧
      (∀ u, u ≠ .trapframe i → ∀ f, role' f = .other u ↔ role f = .other u) ∧
      (∀ f, role' f ≠ .other (.trapframe i)) ∧
      Spaces kend s' (Function.update s.root i none) role' [] m := by
    rcases h.equipped i with ⟨hp, hnone⟩ | ⟨tf, r, htf, hr, hrole, hm⟩
    · refine ⟨s.phys, role, ?_, fun _ _ _ => Iff.rfl, hnone, ?_⟩
      · rw [hp]
        rfl
      · rw [← (h.unused_root hp).1, Function.update_eq_self]
        exact h.spaces
    · have hp : s.proc i = ⟨some tf, some r, (s.proc i).sz⟩ := by
        rw [← htf, ← hr]
      have hf : role tf = .other (.trapframe i) := (hrole tf).mpr rfl
      have hne : tf ≠ tramp := by
        rintro rfl
        rw [(h.kernel tf).mpr h.trampoline] at hf
        cases hf
      have honly := h.spaces.only_linked hf hm hne fun j p hji hlinked => by
        rcases h.linked_other hf hlinked with hw | htramp
        · exact hji (Use.trapframe.inj hw).symm
        · exact hne htramp
      obtain ⟨s', role', hcall, hother, hgone, hspaces⟩ :=
        h.spaces.freeproc hr hf (by simp) honly hm
      refine ⟨s', role', by rw [hp]; exact hcall, hother, fun f hf' => ?_, hspaces⟩
      obtain ⟨hf', hftf⟩ := (hgone f).mp hf'
      exact hftf ((hrole f).mp hf')
  obtain ⟨s', role', hcall, hother, hgone, hspaces⟩ := hkept
  have hstep : vmStep kend tramp (.freeproc i) s = some (s.setProc s' i .unused .done) := by
    simp only [vmStep, hcall, Option.bind_eq_bind, Option.bind_some]
  have hsame : Function.update m i (m i) = m := Function.update_eq_self ..
  rw [← hsame] at hspaces
  have hinv := h.update .unused .done hspaces hother (Or.inl ⟨rfl, hgone⟩)
  refine ⟨_, [.stop i], _, _, hstep, rfl, hinv, ?_⟩
  rw [h.memories_setProc hinv, Lib.run_singleton, memoriesStep]
  rfl

/-! ### Pipes -/

/-- A frame that is not in use `u` before and after. -/
theorem update_role_other {u : Use} {b : Role (Fin nproc) (Fin 512) Use} {g : Nat}
    (hold : role f ≠ .other u) (hnew : b ≠ .other u) :
    Function.update role f b g = .other u ↔ role g = .other u := by
  by_cases hg : g = f
  · rw [hg, Function.update_self]
    exact iff_of_false hnew hold
  · rw [Function.update_of_ne hg]

/-- The invariant after a frame has become a pipe, or a pipe has gone. -/
theorem repipe (h : VmInv kend tramp frames s role m) {pipes : List Nat} (ret : VmResult)
    (hspaces : Spaces kend phys s.root role' [] m)
    (hother : ∀ u, u ≠ Use.pipe → ∀ g, role' g = .other u ↔ role g = .other u)
    (hpipes : ∀ g, g ∈ pipes ↔ role' g = .other .pipe) (hnodup : pipes.Nodup) :
    VmInv kend tramp frames { s with phys := phys, pipes := pipes, ret := ret } role' m where
  spaces := hspaces
  kernel := by
    intro g
    rw [hother _ (by simp), h.kernel]
  trampoline := h.trampoline
  equipped := by
    intro i
    rcases h.equipped i with ⟨hp, hnone⟩ | ⟨tf, r, htf, hr, hrole, hm⟩
    · exact Or.inl ⟨hp, fun g hg => hnone g ((hother _ (by simp) g).mp hg)⟩
    · exact Or.inr ⟨tf, r, htf, hr, fun g => (hother _ (by simp) g).trans (hrole g), hm⟩
  pipes := hpipes
  nodup := hnodup

/-- A new pipe takes a free frame. -/
theorem pipealloc (h : VmInv kend tramp frames s role m) :
    StepOk kend tramp frames .pipealloc s := by
  rcases h.spaces.kalloc_use .pipe with hkalloc | ⟨s1, f, hkalloc, hfree, hspaces, -⟩
  · have hstep : vmStep kend tramp .pipealloc s = some (s.setPhys s.phys (.ok false)) := by
      rw [vmStep, hkalloc]
    have hinv : VmInv kend tramp frames (s.setPhys s.phys (.ok false)) role m :=
      ⟨h.spaces, h.kernel, h.trampoline, h.equipped, h.pipes, h.nodup⟩
    exact ⟨_, [], _, _, hstep, ⟨rfl, kalloc_costs hkalloc⟩, hinv,
      by rw [Lib.run_nil, h.memories_congr hinv rfl]⟩
  · have hstep : vmStep kend tramp .pipealloc s =
        some { s with phys := s1, pipes := f :: s.pipes, ret := .ok true } := by
      rw [vmStep, hkalloc]
    have hother : ∀ u, u ≠ Use.pipe → ∀ g,
        Function.update role f (.other .pipe) g = .other u ↔ role g = .other u := fun u hu g =>
      update_role_other (by rw [hfree]; simp) (by simp [hu.symm])
    have hpipes : ∀ g, g ∈ f :: s.pipes ↔
        Function.update role f (.other .pipe) g = .other .pipe := by
      intro g
      rw [List.mem_cons, h.pipes]
      by_cases hg : g = f
      · rw [hg, Function.update_self]
        simp
      · rw [Function.update_of_ne hg]
        simp [hg]
    have hfresh : f ∉ s.pipes := by
      rw [h.pipes, hfree]
      simp
    have hinv := h.repipe (.ok true) hspaces hother hpipes (List.nodup_cons.mpr ⟨hfresh, h.nodup⟩)
    exact ⟨_, [], _, _, hstep, rfl, hinv, by rw [Lib.run_nil, h.memories_congr hinv rfl]⟩

/-- The frame of a pipe is free again. -/
theorem pipeclose (h : VmInv kend tramp frames s role m)
    (hallowed : (VmEvent.pipeclose f).Allowed s) :
    StepOk kend tramp frames (.pipeclose f) s := by
  have hf : role f = .other .pipe := (h.pipes f).mp hallowed
  have hmiss : ∀ j p, ¬ Linked s.phys.mem s.root role j p f := by
    intro j p hlinked
    rcases h.linked_other hf hlinked with hw | htramp
    · cases hw
    · rw [htramp, (h.kernel tramp).mpr h.trampoline] at hf
      cases hf
  obtain ⟨s', hcall, hspaces⟩ := h.spaces.kfree_unused hf (by simp) hmiss
  have hstep : vmStep kend tramp (.pipeclose f) s =
      some { s with phys := s', pipes := s.pipes.erase f, ret := .done } := by
    simp only [vmStep, hcall, Option.bind_eq_bind, Option.bind_some]
  have hother : ∀ u, u ≠ Use.pipe → ∀ g,
      Function.update role f .free g = .other u ↔ role g = .other u := fun u hu g =>
    update_role_other (by rw [hf]; simp [hu.symm]) (by simp)
  have hpipes : ∀ g, g ∈ s.pipes.erase f ↔ Function.update role f .free g = .other .pipe := by
    intro g
    rw [h.nodup.mem_erase_iff, h.pipes]
    by_cases hg : g = f
    · rw [hg, Function.update_self]
      simp
    · rw [Function.update_of_ne hg]
      simp [hg]
  have hinv := h.repipe .done hspaces hother hpipes (h.nodup.erase f)
  exact ⟨_, [], _, _, hstep, rfl, hinv, by rw [Lib.run_nil, h.memories_congr hinv rfl]⟩

/-- Every allowed call keeps the invariant. -/
theorem step (h : VmInv kend tramp frames s role m) {e : VmEvent} (hallowed : e.Allowed s) :
    StepOk kend tramp frames e s := by
  cases e with
  | allocproc i => exact h.allocproc hallowed
  | fork i j => exact h.fork hallowed
  | freeproc i => exact h.freeproc
  | exec i file argv => exact h.exec hallowed
  | sbrk i n t => exact h.sbrk hallowed
  | fault i va => exact h.fault hallowed
  | store i va b => exact h.store hallowed
  | copyout i dstva src => exact h.copyout hallowed
  | copyin i srcva len => exact h.copyin hallowed
  | pipealloc => exact h.pipealloc
  | pipeclose f => exact h.pipeclose hallowed

end VmInv

/-! ## Runs -/

/-- Memory after `kinit`: the frames on the free list, and no process. -/
def VmState.boot (frames : List Nat) : VmState where
  phys := ⟨fun _ => .junk, frames⟩
  proc := fun _ => .unused
  pipes := []
  ret := .done

def bootRole (frames : List Nat) : Roles (Fin nproc) := fun f =>
  if f ∈ frames then .free else .other .kernel

theorem bootRole_eq_free : bootRole frames f = .free ↔ f ∈ frames := by
  rw [bootRole]
  split <;> simp [*]

theorem bootRole_eq_other : bootRole frames f = .other w ↔ f ∉ frames ∧ w = .kernel := by
  rw [bootRole]
  split <;> simp [*, eq_comm]

theorem bootRole_cases (frames : List Nat) (f : Nat) :
    bootRole frames f = .free ∨ bootRole frames f = .other .kernel := by
  rw [bootRole]
  split <;> simp

/-- At boot all frames are free, the ones of the kernel apart. -/
theorem VmInv.boot (hnodup : frames.Nodup) (hrange : ∀ f ∈ frames, kend ≤ f ∧ f < physTop)
    (htramp : tramp ∉ frames) :
    VmInv kend tramp frames (.boot frames) (bootRole frames) fun _ _ => none := by
  have hplace : ∀ f i p, bootRole frames f ≠ .place i p := by
    intro f i p
    rcases bootRole_cases frames f with h | h <;> rw [h] <;> simp
  have hlinked : ∀ f i p,
      ¬ Linked (VmState.boot frames).phys.mem (VmState.boot frames).root (bootRole frames)
        i p f := by
    intro f i p h
    cases p with
    | nil => cases h
    | cons k p =>
        obtain ⟨g, e, hg, -⟩ := h
        exact hplace g i p hg
  have hloose : ∀ f, bootRole frames f ≠ .loose := by
    intro f
    rcases bootRole_cases frames f with h | h <;> rw [h] <;> simp
  have hforest : Forest 3 (VmState.boot frames).phys.mem (VmState.boot frames).root
      (bootRole frames) none :=
    ⟨fun f i p hf => absurd hf (hplace f i p), fun f i p hf => absurd hf (hplace f i p),
      fun f i p hf => absurd hf (hplace f i p), fun f i p hl => absurd hl (hlinked f i p),
      fun f i p _ hf => absurd hf (hplace f i p)⟩
  refine ⟨⟨⟨hforest, fun f => bootRole_eq_free.symm, hnodup, fun f => ?_, fun f hf => ?_,
    fun g i p k e hg => absurd hg (hplace g i p)⟩, fun i r hr => by cases hr⟩, fun f => ?_, htramp,
    fun i => Or.inl ⟨rfl, fun f => ?_⟩, fun f => ?_, .nil⟩
  · simp [hloose f]
  · by_contra hout
    exact hf (bootRole_eq_other.mpr ⟨fun hmem => hout (hrange f hmem), rfl⟩)
  · simp [bootRole_eq_other]
  · simp [bootRole_eq_other]
  · simp [bootRole_eq_other, VmState.boot]

/-- The invariant holds, and the memories are `a`. -/
def VmRepresents (kend tramp : Nat) (frames : List Nat) (s : VmState) (a : Memories) : Prop :=
  (∃ role m, VmInv kend tramp frames s role m) ∧ s.memories = a

/-- Every allowed step does one operation on the memories, or none, and fails only
    where it may. -/
theorem vmStep_refines :
    Lib.Refines (vmStep kend tramp) (fun s e => decide (e.Allowed s)) memoriesStep VmMay
      (VmRepresents kend tramp frames) := by
  rintro s e a ⟨⟨role, m, h⟩, rfl⟩ hallowed
  obtain ⟨t, ops, role', m', hstep, hmay, h', hrun⟩ := h.step (of_decide_eq_true hallowed)
  exact ⟨t, ops, t.memories, hstep, hmay, hrun, ⟨role', m', h'⟩, rfl⟩

/-- At boot there is no memory. -/
theorem vmRepresents_boot (hnodup : frames.Nodup) (hrange : ∀ f ∈ frames, kend ≤ f ∧ f < physTop)
    (htramp : tramp ∉ frames) :
    VmRepresents kend tramp frames (.boot frames) fun _ => none :=
  ⟨⟨_, _, VmInv.boot hnodup hrange htramp⟩, rfl⟩

/-- The invariant holds in every reachable state. -/
theorem VmInv.of_steps (hnodup : frames.Nodup) (hrange : ∀ f ∈ frames, kend ≤ f ∧ f < physTop)
    (htramp : tramp ∉ frames)
    (hsteps : Lib.Steps (vmStep kend tramp) (fun s e => e.Allowed s) (.boot frames) s) :
    ∃ role m, VmInv kend tramp frames s role m := by
  obtain ⟨-, hinv, -⟩ := vmStep_refines.steps (fun _ _ => decide_eq_true)
    (vmRepresents_boot hnodup hrange htramp) hsteps
  exact hinv

/-- Through page tables and shared frames, every run of calls does to the
    memories that the processes see what a run of `memoriesStep` does. -/
theorem memories_refine (hnodup : frames.Nodup) (hrange : ∀ f ∈ frames, kend ≤ f ∧ f < physTop)
    (htramp : tramp ∉ frames) {es : List VmEvent}
    (hrun : Lib.runEvents (vmStep kend tramp) (fun s e => decide (e.Allowed s)) es (.boot frames) =
      some s) :
    ∃ ops, Lib.Follows (vmStep kend tramp) VmMay es (.boot frames) ops ∧
      Lib.run memoriesStep ops (fun _ => none) = some s.memories := by
  obtain ⟨ops, a, hfollows, hops, -, hmem⟩ :=
    vmStep_refines.run (vmRepresents_boot hnodup hrange htramp) hrun
  rw [hmem]
  exact ⟨ops, hfollows, hops⟩

/-- A machine with 24 frames after the kernel. -/
def fewFrames : List Nat := List.range' 0x80030 24

def forkedSlot : Fin nproc := ⟨1, Nat.succ_lt_succ (Nat.succ_pos 62)⟩

/-- A program of four bytes of text. -/
def shortProgram : ExecFile where
  elf := some ⟨elfMagic, 64, 1⟩
  ph := fun off => if off = 64 then some ⟨1, 5, 120, 0, 4, 4⟩ else none
  data := fun off n => ([0x13, 0x05, 0x00, 0x00].drop (off - 120)).take n

/-- A process executes a program and grows, its child writes to a page that it
    has from it, and both are freed. -/
def forkEvents : List VmEvent :=
  [.allocproc initSlot, .exec initSlot shortProgram [[105]], .sbrk initSlot 5000 0,
    .fault initSlot 12300, .store initSlot 12300 3, .fork initSlot forkedSlot,
    .store forkedSlot 12300 4, .freeproc forkedSlot, .freeproc initSlot]

theorem memories_refine_fork :
    ∃ (s : VmState) (ops : List MemOp),
      Lib.Follows (vmStep 0x80030 0x80007) VmMay forkEvents (.boot fewFrames) ops ∧
      Lib.run memoriesStep ops (fun _ => none) = some s.memories := by
  have hrun : (Lib.runEvents (vmStep 0x80030 0x80007) (fun s e => decide (e.Allowed s)) forkEvents
      (.boot fewFrames)).isSome = true := by decide +kernel
  obtain ⟨s, hs⟩ := Option.isSome_iff_exists.mp hrun
  exact ⟨s, memories_refine (by decide) (by decide) (by decide) hs⟩

/-- No call panics, in any state that a run comes to. -/
theorem vm_never_panics (hnodup : frames.Nodup) (hrange : ∀ f ∈ frames, kend ≤ f ∧ f < physTop)
    (htramp : tramp ∉ frames)
    (hsteps : Lib.Steps (vmStep kend tramp) (fun s e => e.Allowed s) (.boot frames) s)
    {e : VmEvent} (hallowed : e.Allowed s) : (vmStep kend tramp e s).isSome = true := by
  obtain ⟨role, m, h⟩ := VmInv.of_steps hnodup hrange htramp hsteps
  obtain ⟨t, -, -, -, hstep, -⟩ := h.step hallowed
  rw [hstep]
  rfl

theorem vm_never_panics_fork :
    ∃ s, Lib.Steps (vmStep 0x80030 0x80007) (fun s e => e.Allowed s) (.boot fewFrames) s ∧
      (vmStep 0x80030 0x80007 (.freeproc forkedSlot) s).isSome = true := by
  have hrun : (Lib.runEvents (vmStep 0x80030 0x80007) (fun s e => decide (e.Allowed s))
      (forkEvents.take 6) (.boot fewFrames)).isSome = true := by decide +kernel
  obtain ⟨s, hs⟩ := Option.isSome_iff_exists.mp hrun
  have hsteps := Lib.Steps.of_run (fun _ _ => of_decide_eq_true) hs
  exact ⟨s, hsteps, vm_never_panics (by decide) (by decide) (by decide) hsteps trivial⟩

/-- Once no process has memory and no pipe is open, all frames are free again. -/
theorem no_frame_leaks (hnodup : frames.Nodup) (hrange : ∀ f ∈ frames, kend ≤ f ∧ f < physTop)
    (htramp : tramp ∉ frames)
    (hsteps : Lib.Steps (vmStep kend tramp) (fun s e => e.Allowed s) (.boot frames) s)
    (hproc : ∀ i, s.proc i = .unused) (hpipes : s.pipes = []) :
    s.phys.freelist.Perm frames := by
  obtain ⟨role, m, h⟩ := VmInv.of_steps hnodup hrange htramp hsteps
  have howned := h.spaces.toOwned
  refine (List.perm_ext_iff_of_nodup howned.nodup hnodup).mpr fun f => ?_
  rw [howned.freelist]
  cases hf : role f with
  | free =>
      refine iff_of_true rfl ?_
      by_contra hmem
      rw [(h.kernel f).mpr hmem] at hf
      cases hf
  | loose =>
      have hmem := (howned.loose f).mpr hf
      cases hmem
  | place i p =>
      obtain ⟨r, hr⟩ := howned.forest.root_of_place hf
      rw [(h.unused_root (hproc i)).1] at hr
      cases hr
  | other w =>
      refine iff_of_false (by simp) fun hmem => ?_
      cases w with
      | kernel => exact (h.kernel f).mp hf hmem
      | trapframe i => exact (h.unused_root (hproc i)).2 f hf
      | pipe =>
          have hpipe := (h.pipes f).mpr hf
          rw [hpipes] at hpipe
          cases hpipe

theorem no_frame_leaks_fork :
    ∃ s, Lib.Steps (vmStep 0x80030 0x80007) (fun s e => e.Allowed s) (.boot fewFrames) s ∧
      s.phys.freelist.Perm fewFrames := by
  have hrun : (Lib.runEvents (vmStep 0x80030 0x80007) (fun s e => decide (e.Allowed s)) forkEvents
      (.boot fewFrames)).isSome = true := by decide +kernel
  have hsteps := Lib.Steps.endState (P := fun s e => VmEvent.Allowed s e)
    (fun _ _ => of_decide_eq_true) hrun
  have hproc : ∀ i, (Lib.endState (vmStep 0x80030 0x80007) forkEvents (.boot fewFrames)).proc i =
      .unused := by decide +kernel
  have hpipes : (Lib.endState (vmStep 0x80030 0x80007) forkEvents (.boot fewFrames)).pipes =
      [] := by decide +kernel
  exact ⟨_, hsteps, no_frame_leaks (by decide) (by decide) (by decide) hsteps hproc hpipes⟩

/-- A call of one process changes nothing that another sees. -/
theorem memories_isolated (hnodup : frames.Nodup)
    (hrange : ∀ f ∈ frames, kend ≤ f ∧ f < physTop) (htramp : tramp ∉ frames)
    (hsteps : Lib.Steps (vmStep kend tramp) (fun s e => e.Allowed s) (.boot frames) s)
    {e : VmEvent} {t : VmState} (hallowed : e.Allowed s) (hstep : vmStep kend tramp e s = some t)
    (hj : e.slot ≠ some j) : t.memories j = s.memories j := by
  obtain ⟨role, m, h⟩ := VmInv.of_steps hnodup hrange htramp hsteps
  obtain ⟨t', ops, -, -, hstep', hmay, -, hrun⟩ := h.step hallowed
  obtain rfl := Option.some.inj (hstep.symm.trans hstep')
  exact run_memoriesStep_of_ne hrun (hmay.slot_ne hj)

theorem memories_isolated_fork :
    ∃ s t, Lib.Steps (vmStep 0x80030 0x80007) (fun s e => e.Allowed s) (.boot fewFrames) s ∧
      vmStep 0x80030 0x80007 (.store forkedSlot 12300 4) s = some t ∧
        t.memories initSlot = s.memories initSlot := by
  have hrun : (Lib.runEvents (vmStep 0x80030 0x80007) (fun s e => decide (e.Allowed s))
      (forkEvents.take 6) (.boot fewFrames)).isSome = true := by decide +kernel
  have hsteps := Lib.Steps.endState (P := fun s e => VmEvent.Allowed s e)
    (fun _ _ => of_decide_eq_true) hrun
  have hallowed : (VmEvent.store forkedSlot 12300 4).Allowed (Lib.endState
      (vmStep 0x80030 0x80007) (forkEvents.take 6) (.boot fewFrames)) := by decide +kernel
  have hstep : (vmStep 0x80030 0x80007 (.store forkedSlot 12300 4) (Lib.endState
      (vmStep 0x80030 0x80007) (forkEvents.take 6) (.boot fewFrames))).isSome = true := by
    decide +kernel
  obtain ⟨t, ht⟩ := Option.isSome_iff_exists.mp hstep
  exact ⟨_, t, hsteps, ht, memories_isolated (by decide) (by decide) (by decide) hsteps hallowed ht
    (by decide)⟩

end VmRuns

end G20OsLab.Kernel
