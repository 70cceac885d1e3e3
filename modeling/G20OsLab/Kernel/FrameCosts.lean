/-
  G20OsLab.Kernel.FrameCosts

  How many frames the virtual memory takes.

  A call that allocates fails only if there are fewer free frames than it may
  need: one for each page, and for each page at most two tables on the way to
  its entry (`mappages_costs`).  That holds whatever the page tables contain.
-/

import G20OsLab.Kernel.Uvm
import G20OsLab.Kernel.VmSystem

namespace G20OsLab.Kernel

/-- A call from `s` to `s'` that takes at most `k` frames, and fails only if
    fewer are free. -/
def Costs (k : Nat) (s s' : Phys) (ok : Bool) : Prop :=
  if ok then s.freelist.length ≤ s'.freelist.length + k else s.freelist.length < k

section FrameCosts

variable {kend tramp : Nat} {s s' s'' : Phys} {ok : Bool} {k l n r a pa : Nat}
variable {perm : PteFlags} {res : Option Nat}

namespace Costs

/-- Nothing is taken. -/
theorem of_eq (h : s'.freelist = s.freelist) : Costs 0 s s' true := by
  rw [Costs, if_pos rfl, h, Nat.add_zero]

theorem mono (h : Costs k s s' ok) (hkl : k ≤ l) : Costs l s s' ok := by
  unfold Costs at h ⊢
  split at h
  · rw [if_pos ‹_›]
    omega
  · rw [if_neg ‹_›]
    omega

/-- One call after another. -/
theorem trans (h : Costs k s s' true) (h' : Costs l s' s'' ok) : Costs (k + l) s s'' ok := by
  rw [Costs, if_pos rfl] at h
  unfold Costs at h' ⊢
  split at h'
  · rw [if_pos ‹_›]
    omega
  · rw [if_neg ‹_›]
    omega

/-- What a failed call does afterwards does not matter. -/
theorem failed (h : Costs k s s' false) : Costs k s s'' false := h

end Costs

/-! ## Single frames -/

/-- `kalloc` takes a frame. -/
theorem kalloc_costs (h : kalloc s = (s', res)) : Costs 1 s s' res.isSome := by
  unfold kalloc at h
  split at h
  · rename_i hnil
    cases h
    show s.freelist.length < 1
    rw [hnil]
    exact Nat.one_pos
  · rename_i f next hcons
    cases h
    show s.freelist.length ≤ next.length + 1
    rw [hcons]
    exact Nat.le_refl _

/-- Writing an entry takes none. -/
theorem freelist_storePte {pte : Option Pte} {i : Fin 512} (h : s.storePte r i pte = some s') :
    s'.freelist = s.freelist := by
  unfold Phys.storePte at h
  split at h
  · cases h
    rfl
  · cases h

/-! ## Page tables -/

/-- `walk` takes at most a table for each level that it goes down. -/
theorem walkFrom_costs {va level : Nat} {res : Option (Nat × Fin 512)}
    (h : walkFrom va true level s r = some (s', res)) : Costs level s s' res.isSome := by
  induction level generalizing s r with
  | zero =>
      cases h
      exact .of_eq rfl
  | succ level ih =>
      rw [walkFrom] at h
      obtain ⟨pte, -, h⟩ := Option.bind_eq_some_iff.mp h
      cases pte with
      | some pte => exact (ih h).mono (Nat.le_succ level)
      | none =>
          cases halloc : kalloc s with
          | mk s1 table =>
              have hcost := kalloc_costs halloc
              simp only [if_true, halloc] at h
              cases table with
              | none =>
                  cases h
                  exact hcost.mono (Nat.le_add_left 1 level)
              | some table =>
                  obtain ⟨s2, hstore, h⟩ := Option.bind_eq_some_iff.mp h
                  have hsame : Costs 0 s1 s2 true :=
                    .of_eq (freelist_storePte (s := s1.zeroTable table) hstore)
                  have hwalk := (hcost.trans hsame).trans (ih h)
                  exact hwalk.mono (Nat.le_of_eq (Nat.add_comm 1 level))

/-- Two tables lie between the root and an entry. -/
theorem walk_costs {va : Nat} {res : Option (Nat × Fin 512)}
    (h : walk s r va true = some (s', res)) : Costs 2 s s' res.isSome := by
  rw [walk] at h
  split at h
  · cases h
  · exact walkFrom_costs h

/-- The loop of `mappages`. -/
theorem mapLoop_costs (h : mapLoop r perm n s a pa = some (s', ok)) : Costs (2 * n) s s' ok := by
  induction n generalizing s a pa with
  | zero =>
      cases h
      exact .of_eq rfl
  | succ n ih =>
      rw [mapLoop] at h
      obtain ⟨⟨s1, entry⟩, hwalk, h⟩ := Option.bind_eq_some_iff.mp h
      have hcost := walk_costs hwalk
      cases entry with
      | none =>
          cases h
          exact hcost.mono (by omega)
      | some entry =>
          obtain ⟨pte, -, h⟩ := Option.bind_eq_some_iff.mp h
          cases pte with
          | some pte => cases h
          | none =>
              obtain ⟨s2, hstore, h⟩ := Option.bind_eq_some_iff.mp h
              have hsame : Costs 0 s1 s2 true := .of_eq (freelist_storePte hstore)
              exact ((hcost.trans hsame).trans (ih h)).mono (by omega)

/-- A page takes at most two tables to map. -/
theorem mappages_costs (h : mappages s r a pgsize pa perm = some (s', ok)) : Costs 2 s s' ok := by
  rw [mappages] at h
  split at h
  · cases h
  · exact mapLoop_costs h

/-- A new page, and the tables to map it. -/
theorem new_page_costs {f : Nat} {data : Page} (halloc : kalloc s = (s', some f))
    (hmap : mappages (s'.set f (.page data)) r a pgsize f perm = some (s'', ok)) :
    Costs 3 s s'' ok := by
  have hset : Costs 0 s' (s'.set f (.page data)) true := .of_eq rfl
  exact ((kalloc_costs halloc).trans hset).trans (mappages_costs hmap)

/-! ## Address spaces -/

/-- The loop of `uvmalloc`: a frame and two tables for each page. -/
theorem allocLoop_costs {oldsz : Nat} (h : allocLoop kend r oldsz perm n s a = some (s', ok)) :
    Costs (3 * n) s s' ok := by
  induction n generalizing s a with
  | zero =>
      cases h
      exact .of_eq rfl
  | succ n ih =>
      rw [allocLoop] at h
      cases halloc : kalloc s with
      | mk s1 mem =>
          have hcost := kalloc_costs halloc
          simp only [halloc] at h
          cases mem with
          | none =>
              obtain ⟨_, -, h⟩ := Option.bind_eq_some_iff.mp h
              cases h
              exact hcost.failed.mono (by omega)
          | some mem =>
              obtain ⟨⟨s2, mapped⟩, hmap, h⟩ := Option.bind_eq_some_iff.mp h
              have hpage := new_page_costs halloc hmap
              cases mapped with
              | true => exact (hpage.trans (ih h)).mono (by omega)
              | false =>
                  obtain ⟨_, -, h⟩ := Option.bind_eq_some_iff.mp h
                  obtain ⟨_, -, h⟩ := Option.bind_eq_some_iff.mp h
                  cases h
                  exact hpage.failed.mono (by omega)

/-- New memory takes three frames a page. -/
theorem uvmalloc_costs {oldsz newsz : Nat} {xperm : PteFlags} (hle : oldsz ≤ newsz)
    (hpos : 0 < newsz) (h : uvmalloc kend s r oldsz newsz xperm = some (s', k)) :
    Costs (3 * (pageCount newsz - pageCount oldsz)) s s' (decide (k ≠ 0)) := by
  rw [uvmalloc, if_neg (Nat.not_lt.mpr hle)] at h
  obtain ⟨⟨s1, ok⟩, hloop, h⟩ := Option.bind_eq_some_iff.mp h
  have hcost := allocLoop_costs hloop
  have hcount : (pgroundup newsz - pgroundup oldsz) / pgsize =
      pageCount newsz - pageCount oldsz := by
    rw [pgroundup_eq, pgroundup_eq, ← Nat.sub_mul, Nat.mul_div_cancel _ (by decide)]
  rw [hcount] at hcost
  cases h
  cases ok with
  | true =>
      rw [if_pos rfl, decide_eq_true (by omega)]
      exact hcost
  | false => exact hcost

/-- The loop of `uvmcopy`. -/
theorem copyLoop_costs {old new : Nat} (h : copyLoop kend old new n s a = some (s', ok)) :
    Costs (3 * n) s s' ok := by
  induction n generalizing s a with
  | zero =>
      cases h
      exact .of_eq rfl
  | succ n ih =>
      rw [copyLoop] at h
      obtain ⟨pte, -, h⟩ := Option.bind_eq_some_iff.mp h
      cases pte with
      | none => exact (ih h).mono (by omega)
      | some pte =>
          cases halloc : kalloc s with
          | mk s1 mem =>
              have hcost := kalloc_costs halloc
              simp only [halloc] at h
              cases mem with
              | none =>
                  obtain ⟨_, -, h⟩ := Option.bind_eq_some_iff.mp h
                  cases h
                  exact hcost.failed.mono (by omega)
              | some mem =>
                  obtain ⟨data, -, h⟩ := Option.bind_eq_some_iff.mp h
                  obtain ⟨⟨s2, mapped⟩, hmap, h⟩ := Option.bind_eq_some_iff.mp h
                  have hpage := new_page_costs halloc hmap
                  cases mapped with
                  | true => exact (hpage.trans (ih h)).mono (by omega)
                  | false =>
                      obtain ⟨_, -, h⟩ := Option.bind_eq_some_iff.mp h
                      obtain ⟨_, -, h⟩ := Option.bind_eq_some_iff.mp h
                      cases h
                      exact hpage.failed.mono (by omega)

/-- A page table starts with one frame. -/
theorem uvmcreate_costs (h : uvmcreate s = (s', res)) : Costs 1 s s' res.isSome := by
  unfold uvmcreate at h
  cases halloc : kalloc s with
  | mk s1 pagetable =>
      have hcost := kalloc_costs halloc
      rw [halloc] at h
      cases pagetable with
      | none =>
          cases h
          exact hcost
      | some pagetable =>
          cases h
          exact hcost

/-- A page fault at an address below the size, where no page is. -/
theorem vmfault_costs {p : Image} (hsz : a < p.sz)
    (hmapped : ismapped s r (pgrounddown a) = some false)
    (h : vmfault kend s p r a = some (s', res)) : Costs 3 s s' res.isSome := by
  rw [vmfault, if_neg (Nat.not_le.mpr hsz)] at h
  simp only [hmapped, Option.bind_eq_bind, Option.bind_some, Bool.false_eq_true, if_false] at h
  cases halloc : kalloc s with
  | mk s1 mem =>
      have hcost := kalloc_costs halloc
      simp only [halloc] at h
      cases mem with
      | none =>
          cases h
          exact hcost.failed.mono (by omega)
      | some mem =>
          obtain ⟨⟨s2, mapped⟩, hmap, h⟩ := Option.bind_eq_some_iff.mp h
          have hpage := new_page_costs halloc hmap
          cases mapped with
          | true =>
              cases h
              exact hpage
          | false =>
              obtain ⟨_, -, h⟩ := Option.bind_eq_some_iff.mp h
              cases h
              exact hpage.failed

/-- A page table, and the tables for the trampoline and the trapframe. -/
theorem procPagetable_costs {tf : Nat} (h : Vm.procPagetable kend tramp s tf = some (s', res)) :
    Costs 5 s s' res.isSome := by
  rw [Vm.procPagetable] at h
  cases hcreate : uvmcreate s with
  | mk s1 pagetable =>
      have hcost := uvmcreate_costs hcreate
      simp only [hcreate] at h
      cases pagetable with
      | none =>
          cases h
          exact hcost.mono (by omega)
      | some pagetable =>
          obtain ⟨⟨s2, mapped⟩, hmap, h⟩ := Option.bind_eq_some_iff.mp h
          have hfirst := hcost.trans (mappages_costs hmap)
          cases mapped with
          | false =>
              obtain ⟨_, -, h⟩ := Option.bind_eq_some_iff.mp h
              cases h
              exact hfirst.failed.mono (by omega)
          | true =>
              obtain ⟨⟨s3, mapped⟩, hmap', h⟩ := Option.bind_eq_some_iff.mp h
              have hsecond := hfirst.trans (mappages_costs hmap')
              cases mapped with
              | false =>
                  obtain ⟨_, -, h⟩ := Option.bind_eq_some_iff.mp h
                  obtain ⟨_, -, h⟩ := Option.bind_eq_some_iff.mp h
                  cases h
                  exact hsecond.failed
              | true =>
                  cases h
                  exact hsecond

/-- A trapframe and a page table. -/
theorem allocproc_costs {res : Option ProcMem} (h : Vm.allocproc kend tramp s = some (s', res)) :
    Costs 6 s s' res.isSome := by
  rw [Vm.allocproc] at h
  cases halloc : kalloc s with
  | mk s1 tf =>
      have hcost := kalloc_costs halloc
      simp only [halloc] at h
      cases tf with
      | none =>
          obtain ⟨_, -, h⟩ := Option.bind_eq_some_iff.mp h
          cases h
          exact hcost.failed.mono (by omega)
      | some tf =>
          obtain ⟨⟨s2, pagetable⟩, hproc, h⟩ := Option.bind_eq_some_iff.mp h
          have hall := hcost.trans (procPagetable_costs hproc)
          cases pagetable with
          | none =>
              obtain ⟨_, -, h⟩ := Option.bind_eq_some_iff.mp h
              cases h
              exact hall.failed
          | some pagetable =>
              cases h
              exact hall

/-- A new process, and a copy of every page. -/
theorem fork_costs {sz : Nat} {res : Option ProcMem}
    (h : Vm.fork kend tramp s r sz = some (s', res)) :
    Costs (6 + 3 * pageCount sz) s s' res.isSome := by
  rw [Vm.fork] at h
  obtain ⟨⟨s1, np⟩, hproc, h⟩ := Option.bind_eq_some_iff.mp h
  have hcost := allocproc_costs hproc
  cases np with
  | none =>
      cases h
      exact hcost.mono (by omega)
  | some np =>
      obtain ⟨new, -, h⟩ := Option.bind_eq_some_iff.mp h
      obtain ⟨⟨s2, copied⟩, hcopy, h⟩ := Option.bind_eq_some_iff.mp h
      have hall := hcost.trans (copyLoop_costs hcopy)
      cases copied with
      | false =>
          obtain ⟨_, -, h⟩ := Option.bind_eq_some_iff.mp h
          cases h
          exact hall.failed
      | true =>
          cases h
          exact hall

end FrameCosts

end G20OsLab.Kernel
