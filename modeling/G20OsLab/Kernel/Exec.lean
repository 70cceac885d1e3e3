/-
  G20OsLab.Kernel.Exec

  `kexec` in the memories of all processes.

  The new page table is made beside those of the processes (`Beside`).  At the end
  one of two is freed: the new one, and all is as before (`Beside.undo`), or the old
  one, whose name the new one gets (`Beside.commit`).  The memory of the process is
  then the image (`Spaces.kexec`).
-/

import G20OsLab.Kernel.ExecStack

namespace G20OsLab.Kernel

open Lib (Frame Role Forest)

/-! ## Names of page tables -/

section Rename

variable {ι κ : Type} {kend : Nat} {s : Phys} {root : ι → Option Nat} {root' : κ → Option Nat}
variable {role : Roles ι} {loose : List Nat} {m : ι → UserSpace} {m' : κ → UserSpace} {σ : ι → κ}

/-- What a leaf is does not depend on the name of its page table. -/
theorem leafOf_rename (e : Pte) : leafOf s (fun f => (role f).rename σ) e = leafOf s role e := by
  rw [leafOf, leafOf]
  cases s.mem e.1 <;> cases role e.1 <;> rfl

theorem space_rename (r : Nat) : space s (fun f => (role f).rename σ) r = space s role r := by
  funext n
  rw [space, space, funext leafOf_rename]

/-- The names of the page tables do not matter, if they stay different. -/
theorem Owned.rename (hσ : Function.Injective σ) (hroot : ∀ i, root' (σ i) = root i)
    (hout : ∀ j, (∀ i, σ i ≠ j) → root' j = none) :
    Owned kend s root' (fun f => (role f).rename σ) none loose ↔
      Owned kend s root role none loose := by
  have hforest : Forest 3 s.mem root' (fun f => (role f).rename σ) none ↔
      Forest 3 s.mem root role none := Forest.rename hσ hroot hout
  constructor
  · intro h
    refine ⟨hforest.mp h.forest, fun f => ?_, h.nodup, fun f => ?_, fun f hf => ?_,
      fun g i p k e hg he => ?_⟩
    · rw [h.freelist, Role.rename_eq_free]
    · rw [h.loose, Role.rename_eq_loose]
    · exact h.range f fun hother => hf (Role.rename_eq_other.mp hother)
    · exact h.leaf g (σ i) p k e ((Role.rename_eq_place hσ).mpr hg) he
  · intro h
    refine ⟨hforest.mpr h.forest, fun f => ?_, h.nodup, fun f => ?_, fun f hf => ?_,
      fun g j p k e hg he => ?_⟩
    · rw [h.freelist, Role.rename_eq_free]
    · rw [h.loose, Role.rename_eq_loose]
    · exact h.range f fun hother => hf (Role.rename_eq_other.mpr hother)
    · obtain ⟨i, -, hold⟩ := Role.exists_of_rename_place hg
      exact h.leaf g i p k e hold he

/-- The address spaces do not depend on the names of the page tables. -/
theorem Spaces.rename (hσ : Function.Injective σ) (hroot : ∀ i, root' (σ i) = root i)
    (hout : ∀ j, (∀ i, σ i ≠ j) → root' j = none) (hm : ∀ i, m' (σ i) = m i) :
    Spaces kend s root' (fun f => (role f).rename σ) loose m' ↔
      Spaces kend s root role loose m := by
  constructor
  · intro h
    refine ⟨(Owned.rename hσ hroot hout).mp h.toOwned, fun i r hr => ?_⟩
    rw [← hroot] at hr
    rw [← hm, ← h.space_eq (σ i) r hr, space_rename]
  · intro h
    refine ⟨(Owned.rename hσ hroot hout).mpr h.toOwned, fun j r hr => ?_⟩
    obtain ⟨i, rfl⟩ : ∃ i, σ i = j := by
      by_contra hnot
      rw [hout j fun i hi => hnot ⟨i, hi⟩] at hr
      cases hr
    rw [hroot] at hr
    rw [hm, ← h.space_eq i r hr, space_rename]

/-- Only page tables that there are need a name. -/
theorem Spaces.exists_rename {role' : Roles κ} (h : Spaces kend s root' role' loose m')
    (hσ : Function.Injective σ) (hroot : ∀ i, root' (σ i) = root i)
    (hout : ∀ j, (∀ i, σ i ≠ j) → root' j = none) (hm : ∀ i, m' (σ i) = m i) :
    ∃ role, Spaces kend s root role loose m ∧ ∀ f w, role f = .other w ↔ role' f = .other w := by
  obtain ⟨role, rfl⟩ := h.forest.exists_rename hout
  exact ⟨role, (Spaces.rename hσ hroot hout hm).mp h, fun f w => Role.rename_eq_other.symm⟩

end Rename

/-! ## kexec -/

section Exec

variable {ι : Type} {kend tramp : Nat} {s s' : Phys} {root : ι → Option Nat} {role : Roles ι}
variable {i : ι} {r r' sz sz' tf : Nat} {w : Use} {m : ι → UserSpace} {m' : UserSpace}
variable {role' : Roles (Option ι)}

/-- The page table `none` is being made at `r'`, beside those of the processes. -/
structure Beside (kend : Nat) (s : Phys) (root : ι → Option Nat) (role : Roles ι) (s' : Phys)
    (role' : Roles (Option ι)) (r' : Nat) (m' : UserSpace) [DecidableEq ι] : Prop where
  within : Within none s (fun f => (role f).rename some) s' role'
  holds : Holds kend s' (Function.update (fun j => j.bind root) none (some r')) role' none [] none
    r' m'

/-- All address spaces, with room for one more. -/
theorem Spaces.beside (h : Spaces kend s root role [] m) :
    Spaces kend s (fun j : Option ι => j.bind root) (fun f => (role f).rename some) []
      fun j => j.elim (fun _ => none) m := by
  refine (Spaces.rename (Option.some_injective ι) (fun _ => rfl) ?_ (fun _ => rfl)).mpr h
  intro j hj
  cases j with
  | none => rfl
  | some i => exact absurd rfl (hj i)

/-- There is no more than the page tables of the processes. -/
theorem Spaces.alone {m' : Option ι → UserSpace}
    (h : Spaces kend s (fun j => j.bind root) role' [] m') (hm : ∀ i, m' (some i) = m i) :
    ∃ role, Spaces kend s root role [] m ∧ ∀ f w, role f = .other w ↔ role' f = .other w := by
  refine h.exists_rename (Option.some_injective ι) (fun _ => rfl) ?_ hm
  intro j hj
  cases j with
  | none => rfl
  | some i => exact absurd rfl (hj i)

variable [DecidableEq ι]

/-- The names of the page tables once that of process `i` is the new one. -/
def newName (i j : ι) : Option ι := if j = i then none else some j

theorem newName_injective : Function.Injective (newName i) := by
  intro j k hjk
  unfold newName at hjk
  split at hjk <;> split at hjk
  · exact Eq.trans ‹_› (Eq.symm ‹_›)
  · cases hjk
  · cases hjk
  · exact Option.some.inj hjk

/-- What is new goes under the old name. -/
theorem update_newName {β : Type _} (f : Option ι → β) (x y : β) (j : ι) :
    Function.update (Function.update f none x) (some i) y (newName i j) =
      Function.update (fun j => f (some j)) i x j := by
  by_cases hji : j = i
  · rw [newName, if_pos hji, Function.update_of_ne (by simp), Function.update_self, hji,
      Function.update_self]
  · rw [newName, if_neg hji, Function.update_of_ne (by simpa using hji),
      Function.update_of_ne (by simp), Function.update_of_ne hji]

namespace Beside

/-- All address spaces, the new one among them. -/
theorem spaces (h : Spaces kend s root role [] m) (hnew : Beside kend s root role s' role' r' m') :
    Spaces kend s' (Function.update (fun j => j.bind root) none (some r')) role' []
      (Function.update (fun j => j.elim (fun _ => none) m) none m') := by
  refine h.beside.within hnew.within hnew.holds.toOwned (fun j hj => ?_) fun r hr => ?_
  · exact Function.update_of_ne hj ..
  · rw [Function.update_self] at hr
    cases hr
    exact hnew.holds.space_eq

/-- The frames outside the page tables are what they were. -/
theorem other_iff (hnew : Beside kend s root role s' role' r' m') {f : Nat} :
    role' f = .other w ↔ role f = .other w := by
  rw [hnew.within.other_iff, Role.rename_eq_other]

/-- `kexec` gives up, and frees the new page table. -/
theorem undo (h : Spaces kend s root role [] m) (hnew : Beside kend s root role s' role' r' m')
    (hm' : Proper m' sz' tf tramp) :
    ∃ s'' role'', Vm.procFreepagetable kend s' r' sz' = some s'' ∧
      Spaces kend s'' root role'' [] m ∧ ∀ f w, role'' f = .other w ↔ role f = .other w := by
  obtain ⟨s'', role'', hfree, hin, howned, -⟩ := hnew.holds.procFreepagetable hm' (by simp)
  have hnone : Function.update (fun j : Option ι => j.bind root) none none = fun j => j.bind root :=
    Function.update_eq_self_iff.mpr rfl
  rw [Function.update_idem, hnone] at howned
  have hspaces : Spaces kend s'' _ role'' [] (Function.update _ none fun _ => none) :=
    (hnew.spaces h).within hin howned (fun j hj => by rw [Function.update_of_ne hj]) (by simp)
  obtain ⟨role3, h3, hother⟩ := hspaces.alone (m := m) fun i => rfl
  exact ⟨s'', role3, hfree, h3, fun f w => by rw [hother, hin.other_iff, hnew.other_iff]⟩

/-- `kexec` commits to the new page table, and frees the old one. -/
theorem commit (h : Spaces kend s root role [] m) (hnew : Beside kend s root role s' role' r' m')
    (hr : root i = some r) (hm : Proper (m i) sz tf tramp) :
    ∃ s'' role'', Vm.procFreepagetable kend s' r sz = some s'' ∧
      Spaces kend s'' (Function.update root i (some r')) role'' [] (Function.update m i m') ∧
      ∀ f w, role'' f = .other w ↔ role f = .other w := by
  have hold := (hnew.spaces h).holds (i := some i) (r := r) (by
    rw [Function.update_of_ne (by simp)]
    exact hr)
  rw [Function.update_of_ne (by simp)] at hold
  obtain ⟨s'', role'', hfree, hin, howned, -⟩ := hold.procFreepagetable hm (by simp)
  have hspaces : Spaces kend s'' _ role'' [] (Function.update _ (some i) fun _ => none) :=
    (hnew.spaces h).within hin howned (fun j hj => Function.update_of_ne hj ..) (by simp)
  -- the new page table takes the name of the old one
  have hroot : ∀ j, Function.update (Function.update (fun j => j.bind root) none (some r'))
      (some i) none (newName i j) = Function.update root i (some r') j :=
    update_newName (fun j => j.bind root) (some r') none
  have hmem : ∀ j, Function.update (Function.update (fun j => j.elim (fun _ => none) m) none m')
      (some i) (fun _ => none) (newName i j) = Function.update m i m' j :=
    update_newName (fun j => j.elim (fun _ => none) m) m' fun _ => none
  have hout : ∀ j, (∀ k, newName i k ≠ j) → Function.update
      (Function.update (fun j => j.bind root) none (some r')) (some i) none j = none := by
    intro j hj
    cases j with
    | none => exact absurd (if_pos rfl) (hj i)
    | some k =>
        by_cases hki : k = i
        · rw [hki, Function.update_self]
        · exact absurd (if_neg hki) (hj k)
  obtain ⟨role3, h3, hother⟩ := hspaces.exists_rename newName_injective hroot hout hmem
  exact ⟨s'', role3, hfree, h3, fun f w => by rw [hother, hin.other_iff, hnew.other_iff]⟩

end Beside

/-! ## kexec -/

/-- The stack takes two pages. -/
theorem stackImage_size {argv : List (List UInt8)} {img img' : View}
    (h : stackImage argv img = some img') : pageCount img'.1 = pageCount img.1 + 2 := by
  obtain ⟨res, -, h⟩ := Option.bind_eq_some_iff.mp h
  obtain ⟨-, h⟩ := Option.ite_none_left_eq_some.mp h
  cases h
  exact pageCount_mul _

/-- The image has the program, and the stack on top. -/
theorem execImage_cases {file : ExecFile} {argv : List (List UInt8)} {elf : ElfHdr} {img : View}
    (helf : file.elf = some elf) (hmagic : elf.magic = elfMagic)
    (h : execImage file argv = some img) :
    ∃ prog, phdrsImage file elf.phnum elf.phoff (0, fun _ => none) = some prog ∧
      stackImage argv prog = some img := by
  rw [execImage, helf, Option.bind_eq_bind, Option.bind_some,
    if_neg (not_not.mpr hmagic)] at h
  exact Option.bind_eq_some_iff.mp h

/-- What `kexec` of process `i` may come to: the memory of the image, or nothing if
    there is none, or fewer free frames than three for each page of it and five for
    the page table. -/
def Execs (kend tramp : Nat) (s : Phys) (root : ι → Option Nat) (role : Roles ι)
    (m : ι → UserSpace) (i : ι) (r tf sz : Nat) (file : ExecFile) (argv : List (List UInt8))
    (res : Option (Phys × ProcMem × Bool)) : Prop :=
  ∃ s' role' r' sz' m', ∃ ok : Bool, res = some (s', ⟨some tf, some r', sz'⟩, ok) ∧
    Spaces kend s' (Function.update root i (some r')) role' [] (Function.update m i m') ∧
    (∀ f w, role' f = .other w ↔ role f = .other w) ∧ Proper m' sz' tf tramp ∧
    if ok then execImage file argv = some (sz', m'.seen sz')
      else r' = r ∧ sz' = sz ∧ m' = m i ∧ ∀ img, execImage file argv = some img →
        s.freelist.length < 5 + 3 * pageCount img.1

section Execs

variable {file : ExecFile} {argv : List (List UInt8)} {res : Option (Phys × ProcMem × Bool)}

/-- All is as it was. -/
theorem Execs.failed {role' : Roles ι} (hr : root i = some r) (hm : Proper (m i) sz tf tramp)
    (hres : res = some (s', ⟨some tf, some r, sz⟩, false)) (h' : Spaces kend s' root role' [] m)
    (hother : ∀ f w, role' f = .other w ↔ role f = .other w)
    (hshort : ∀ img, execImage file argv = some img →
      s.freelist.length < 5 + 3 * pageCount img.1) :
    Execs kend tramp s root role m i r tf sz file argv res := by
  refine ⟨s', role', r, sz, m i, false, hres, ?_, hother, hm, rfl, rfl, rfl, hshort⟩
  rwa [← hr, Function.update_eq_self, Function.update_eq_self]

/-- `kexec`, once it has read an ELF header. -/
theorem Spaces.kexec_elf (h : Spaces kend s root role [] m) (hr : root i = some r)
    (hm : Proper (m i) sz tf tramp) (htramp : role tramp = .other .kernel)
    (htf : role tf = .other w) {elf : ElfHdr} (helf : file.elf = some elf)
    (hmagic : elf.magic = elfMagic) (hargs : argv.length < maxarg) :
    Execs kend tramp s root role m i r tf sz file argv
      (Vm.kexec kend tramp s ⟨some tf, some r, sz⟩ file argv) := by
  have htramp' : ((role tramp).rename some : Role (Option ι) _ _) = .other .kernel :=
    Role.rename_eq_other.mpr htramp
  have htf' : ((role tf).rename some : Role (Option ι) _ _) = .other w :=
    Role.rename_eq_other.mpr htf
  obtain ⟨s1, role1, res, hproc, hin1, h1⟩ :=
    h.beside.toOwned.procPagetable (i := none) rfl htramp' htf'
  have hcost1 := procPagetable_costs hproc
  rw [Vm.kexec, helf]
  simp only [hmagic, ne_eq, not_true_eq_false, if_false, Option.bind_eq_bind, Option.bind_some,
    hproc]
  cases res with
  | none =>
      -- no page table: nothing was made
      have hspaces : Spaces kend s1 _ role1 [] (Function.update _ none fun _ => none) :=
        h.beside.within hin1 h1.1 (fun _ _ => rfl) (by simp)
      obtain ⟨role', h', hother⟩ := hspaces.alone (m := m) fun i => rfl
      refine .failed hr hm rfl h' (fun f w => ?_) fun img _ => ?_
      · rw [hother, hin1.other_iff, Role.rename_eq_other]
      · have hshort : s.freelist.length < 5 := hcost1
        omega
  | some r' =>
      have hbuilt : Built kend _ none r' tf tramp s1 role1 (newSpace tf tramp) 0 :=
        ⟨h1, newSpace_proper, fun n hn => absurd hn (Nat.not_lt_zero n)⟩
      obtain ⟨s2, role2, m2, sz2, ok, hloads⟩ := hbuilt.loads file elf.phnum elf.phoff
      have hprog := hloads.image
      have hcost2 := hloads.costs
      rw [newSpace_seen] at hprog hcost2
      have hnew2 : Beside kend s root role s2 role2 r' m2 :=
        ⟨hin1.trans hloads.within, hloads.built.holds⟩
      simp only [hloads.call, Option.bind_some]
      cases ok with
      -- a segment failed: `bad:` frees the new page table
      | false =>
          obtain ⟨s', role', hfree, h', hother⟩ := hnew2.undo h hloads.built.proper
          refine .failed hr hm (by simp only [hfree, Option.bind_some]) h' hother fun img himg => ?_
          obtain ⟨prog, hphdrs, hstack⟩ := execImage_cases helf hmagic himg
          have hsize := stackImage_size hstack
          have hshort := hcost1.trans (hcost2 prog hphdrs)
          rw [Costs, if_neg (by simp), pageCount_zero] at hshort
          omega
      | true =>
          have hprog := hprog rfl
          obtain ⟨s3, role3, m3, sz3, res, hsetup, hin3, h3, hm3, hstack⟩ :=
            hloads.built.setupStack hargs ⟨r, sz⟩
          have hnew3 : Beside kend s root role s3 role3 r' m3 := ⟨hnew2.within.trans hin3, h3⟩
          simp only [hsetup, Option.bind_some]
          cases res with
          | none =>
              obtain ⟨s', role', hfree, h', hother⟩ := hnew3.undo h hm3
              refine .failed hr hm (by simp only [hfree, Option.bind_some]) h' hother
                fun img himg => ?_
              obtain ⟨prog, hphdrs, hstack'⟩ := execImage_cases helf hmagic himg
              -- the program was loaded, so the stack has failed
              obtain rfl := Option.some.inj (hprog.symm.trans hphdrs)
              have hsize := stackImage_size hstack'
              rcases hstack with hnone | ⟨-, hshort⟩
              · rw [hnone] at hstack'
                cases hstack'
              · have htaken := hcost1.trans (hcost2 _ hphdrs)
                rw [Costs, if_pos rfl, pageCount_zero] at htaken
                omega
          | some sp =>
              -- the new memory is complete, and the old one goes
              obtain ⟨s', role', hfree, h', hother⟩ := hnew3.commit h hr hm
              refine ⟨s', role', r', sz3, m3, true, by simp only [hfree, Option.bind_some], h',
                hother, hm3, ?_⟩
              have himage : stackImage argv (sz2, m2.seen sz2) = some (sz3, m3.seen sz3) :=
                hstack.resolve_right (by simp)
              rw [if_pos rfl, execImage, helf, Option.bind_eq_bind, Option.bind_some,
                if_neg (not_not.mpr hmagic), hprog]
              exact himage

/-- `kexec` gives process `i` the memory of the image, or leaves all as it was. -/
theorem Spaces.kexec (h : Spaces kend s root role [] m) (hr : root i = some r)
    (hm : Proper (m i) sz tf tramp) (htramp : role tramp = .other .kernel)
    (htf : role tf = .other w) (file : ExecFile) (hargs : argv.length < maxarg) :
    Execs kend tramp s root role m i r tf sz file argv
      (Vm.kexec kend tramp s ⟨some tf, some r, sz⟩ file argv) := by
  cases helf : file.elf with
  | none =>
      refine .failed hr hm ?_ h (fun _ _ => Iff.rfl) fun img himg => ?_
      · rw [Vm.kexec, helf]
      · rw [execImage, helf] at himg
        cases himg
  | some elf =>
      by_cases hmagic : elf.magic = elfMagic
      · exact h.kexec_elf hr hm htramp htf helf hmagic hargs
      · refine .failed hr hm ?_ h (fun _ _ => Iff.rfl) fun img himg => ?_
        · rw [Vm.kexec, helf]
          exact if_pos hmagic
        · rw [execImage, helf, Option.bind_eq_bind, Option.bind_some, if_pos hmagic] at himg
          cases himg

end Execs

end Exec

end G20OsLab.Kernel
