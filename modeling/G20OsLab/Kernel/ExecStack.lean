/-
  G20OsLab.Kernel.ExecStack

  The user stack that `kexec` makes.

  It is a page above the program, with a guard page under it that stays in the
  page table but is taken away from the process (`Holds.uvmclear`).  The strings
  and the array of their addresses are copied to it with `copyout`, which is not
  cut short there (`Holds.copyout_all`).
-/

import G20OsLab.Kernel.ExecImage

namespace G20OsLab.Kernel

open Lib (Frame Role Forest Intact Linked slotAt setSlot entry nodeAt)

section Stack

variable {ι : Type} {kend tramp : Nat} {s s' : Phys} {root : ι → Option Nat}
variable {role role' : Roles ι} {loose : List Nat} {i : ι} {f r n sz tf dst : Nat}
variable {flags : PteFlags} {m m' : UserSpace} {data : Page} {p : Image}

/-! ## The guard page -/

/-- `uvmclear` takes a page away from the process, not from its page table. -/
theorem Holds.uvmclear (h : Holds kend s root role none loose i r m) (hva : n * pgsize < maxva)
    (hpage : m n = some (.page data, flags)) :
    ∃ s', Vm.uvmclear s r (n * pgsize) = some s' ∧ Within i s role s' role ∧
      Holds kend s' root role none loose i r
        (Function.update m n (some (.page data, { flags with u := false }))) := by
  obtain ⟨f, he, hf, hdata⟩ := h.page_frame (by simp) hpage
  obtain ⟨g, hg, hslot⟩ := (h.forest.entry_eq_some h.intact h.root_eq tablePath_lt).mp he
  obtain ⟨t, hwalk, ht⟩ := h.walk_find h.intact h.root_eq hva
  obtain rfl := (ht g).mpr hg
  have htable := h.table hg tablePath_lt
  have hfg : f ≠ g := ne_of_length hg hf (Nat.ne_of_lt (Nat.lt_succ_self 2))
  have hforest := h.forest.setSlot (f := f) { flags with u := false } hg tablePath_lt
    (Or.inl ⟨_, hslot, rfl⟩)
  have hleaf := h.leaf g i _ _ _ hg hslot
  have howned := h.setSlot hg tablePath_lt hforest (by
    rintro e ⟨⟩
    exact hleaf)
  have hset := h.setEntry howned Lib.intact_none (lt_pages hva) hg rfl (fun _ _ _ => Iff.rfl)
    (fun _ _ _ => rfl)
  rw [Option.map_some, leafOf_page hf ((Lib.setSlot_of_ne hfg).trans hdata)] at hset
  refine ⟨_, ?_, Within.content (f := g) (fun x hx => Lib.setSlot_of_ne hx) ?_, hset⟩
  · simp only [Vm.uvmclear, hwalk, Option.map_some, Option.bind_eq_bind, Option.bind_some,
      Phys.loadPte_eq htable, hslot, Phys.storePte_eq _ htable]
  · rw [hg]
    rfl

/-- It is not seen any more. -/
theorem UserSpace.seen_hide (m : UserSpace) (sz n : Nat) (data : Page) (flags : PteFlags) :
    UserSpace.seen (Function.update m n (some (.page data, { flags with u := false }))) sz =
      (m.seen sz).hide n := by
  funext x
  rw [Seen.hide, UserSpace.seen]
  by_cases hx : x = n
  · rw [hx, Function.update_self, Function.update_self]
    rfl
  · rw [Function.update_of_ne hx, Function.update_of_ne hx, UserSpace.seen]

/-! ## Arguments -/

/-- The process can use the memory from `base` on. -/
def UserSpace.Usable (m : UserSpace) (sz base : Nat) : Prop :=
  ∀ a, base ≤ a → a < sz → m.Mapped (a / pgsize) ∧ (m.seen sz).Writable a

/-- A copy to memory that can be used is not cut short, whoever makes it. -/
theorem Holds.copyout_all (h : Holds kend s root role none loose i r m) (hm : Proper m sz tf tramp)
    {src : List UInt8} {base : Nat} (hbase : m.Usable sz base) (hdst : base ≤ dst)
    (hfit : dst + src.length ≤ sz) (p : Image) :
    ∃ s' role' m', Kernel.copyout kend s p r dst src = some (s', true) ∧
      Accesses kend root loose i r sz tf tramp s role m s' role' m' ∧
      m'.seen sz = (m.seen sz).write dst src ∧ m'.Usable sz base := by
  have hmapped : ∀ a, dst ≤ a → a < dst + src.length → m.Mapped (a / pgsize) := fun a ha hlt =>
    (hbase a (by omega) (by omega)).1
  obtain ⟨s', role', m', ok, k, hcall, hacc, hseen, -, hok⟩ := h.copyout hm (p := p)
    (Or.inr hmapped)
  cases ok with
  | false =>
      obtain ⟨hk, hwhy⟩ := hok
      obtain ⟨hmapped, hw⟩ := hbase (dst + k) (by omega) (by omega)
      rcases hwhy with hnot | ⟨hnot, -⟩
      · exact absurd hw hnot
      · exact absurd hmapped hnot
  | true =>
      have hall : k = src.length := hok
      rw [hall, List.take_length] at hseen
      refine ⟨s', role', m', hcall, hacc, hseen, fun a ha hlt => ?_⟩
      obtain ⟨hmapped, hw⟩ := hbase a ha hlt
      exact ⟨hacc.mapped _ hmapped, by rwa [hseen, Seen.writable_write]⟩

/-- What is pushed ends where the stack pointer was. -/
theorem pushSp_add_le {sp len : Nat} (h : 0 < pushSp sp len) : pushSp sp len + len ≤ sp := by
  unfold pushSp at h ⊢
  omega

/-- The loop of `kexec` over the arguments pushes what the image has, or runs out
    of stack. -/
theorem Holds.pushArgs (h : Holds kend s root role none loose i r m) (hm : Proper m sz tf tramp)
    {base argc sp : Nat} {argv : List (List UInt8)} (hbase : m.Usable sz base) (hpos : 0 < base)
    (hsp : sp ≤ sz) (hargs : argc + argv.length ≤ maxarg) (p : Image) :
    ∃ s' role' m', ∃ res : Option (Nat × List Nat),
      Vm.pushArgs kend p r base argv argc s sp = some (s', res) ∧
      Accesses kend root loose i r sz tf tramp s role m s' role' m' ∧ m'.Usable sz base ∧
      argsImage base argv sp (m.seen sz) = res.map (fun res => (res.1, res.2, m'.seen sz)) ∧
      ∀ sp' ustack, res = some (sp', ustack) → sp' ≤ sz ∧ ustack.length = argv.length := by
  induction argv generalizing s role m argc sp with
  | nil =>
      refine ⟨s, role, m, some (sp, []), rfl, .refl h hm, hbase, rfl, ?_⟩
      rintro sp' ustack ⟨⟩
      exact ⟨hsp, rfl⟩
  | cons arg argv ih =>
      rw [List.length_cons] at hargs
      -- one argument, and then the rest of them
      have hcall : Vm.pushArgs kend p r base (arg :: argv) argc s sp =
          if pushSp sp (arg.length + 1) < base then some (s, none)
          else (Kernel.copyout kend s p r (pushSp sp (arg.length + 1)) (arg ++ [0])).bind
            fun res => if res.2 then
                (Vm.pushArgs kend p r base argv (argc + 1) res.1 (pushSp sp (arg.length + 1))).bind
                  fun res' => some (res'.1, res'.2.map fun pushed =>
                    (pushed.1, pushSp sp (arg.length + 1) :: pushed.2))
              else some (res.1, none) := by
        rw [Vm.pushArgs, if_neg (by omega)]
        refine if_congr Iff.rfl rfl (Option.bind_congr fun res _ => ?_)
        obtain ⟨s1, ok⟩ := res
        cases ok with
        | false => rfl
        | true =>
            refine Option.bind_congr fun res' _ => ?_
            obtain ⟨s2, pushed⟩ := res'
            cases pushed <;> rfl
      have himage : argsImage base (arg :: argv) sp (m.seen sz) =
          if pushSp sp (arg.length + 1) < base then none
          else (argsImage base argv (pushSp sp (arg.length + 1))
              ((m.seen sz).write (pushSp sp (arg.length + 1)) (arg ++ [0]))).bind
            fun res => some (res.1, pushSp sp (arg.length + 1) :: res.2.1, res.2.2) := by
        rw [argsImage]
        rfl
      generalize hnew : pushSp sp (arg.length + 1) = new at hcall himage
      -- below the base of the stack `kexec` gives up
      by_cases hlt : new < base
      · rw [if_pos hlt] at hcall himage
        exact ⟨s, role, m, none, hcall, .refl h hm, hbase, himage, by simp⟩
      · have hfit : new + (arg.length + 1) ≤ sp := by
          rw [← hnew]
          exact pushSp_add_le (by omega)
        have hroom : new + (arg ++ [0]).length ≤ sz := by
          rw [List.length_append, List.length_singleton]
          omega
        obtain ⟨s1, role1, m1, hcopy, hacc, hseen, hbase1⟩ :=
          h.copyout_all hm hbase (Nat.not_lt.mp hlt) hroom p
        obtain ⟨s', role', m', res, hpush, hacc', hbase', himage', hres⟩ :=
          ih hacc.holds hacc.proper hbase1 (show new ≤ sz by omega)
            (show argc + 1 + argv.length ≤ maxarg by omega)
        rw [if_neg hlt, hcopy, Option.bind_some] at hcall
        simp only [hpush, Option.bind_some] at hcall
        rw [if_neg hlt, ← hseen, himage'] at himage
        cases res with
        | none => exact ⟨s', role', m', none, hcall, hacc.trans hacc', hbase', himage, by simp⟩
        | some res =>
            obtain ⟨hle, hlen⟩ := hres res.1 res.2 rfl
            refine ⟨s', role', m', some (res.1, new :: res.2), hcall, hacc.trans hacc', hbase',
              himage, ?_⟩
            rintro sp' ustack ⟨⟩
            exact ⟨hle, congrArg (· + 1) hlen⟩

/-! ## The stack -/

theorem length_u64Bytes (l : List Nat) : (l.flatMap Vm.u64Bytes).length = l.length * 8 := by
  simp [List.length_flatMap, Vm.u64Bytes]

/-- Growing begins with the next page. -/
theorem Seen.grow_pgroundup (v : Seen) (new : Nat) (w : Bool) :
    v.grow (pgroundup sz) new w = v.grow sz new w := by
  funext n
  rw [Seen.grow, Seen.grow, pgroundup_eq, pageCount_mul]

/-- Nothing more is seen up to the next page boundary. -/
theorem UserSpace.seen_pgroundup : m.seen (pgroundup sz) = m.seen sz := by
  funext n
  have hiff : n * pgsize < pgroundup sz ↔ n * pgsize < sz := by
    rw [← lt_pageCount, ← lt_pageCount, pgroundup_eq, pageCount_mul]
  rw [UserSpace.seen, UserSpace.seen]
  simp only [hiff]

namespace Built

/-- The memory reaches up to the next page boundary. -/
theorem roundup (h : Built kend root i r tf tramp s role m sz) :
    Built kend root i r tf tramp s role m (pgroundup sz) := by
  have hcount : pageCount (pgroundup sz) = pageCount sz := by
    rw [pgroundup_eq, pageCount_mul]
  refine ⟨h.holds, ⟨le_trapframe ?_, ?_, h.proper.trapframe, h.proper.trampoline, ?_⟩, ?_⟩
  · rw [hcount]
    exact pageCount_le h.proper.size
  · rw [hcount]
    exact h.proper.own
  · rw [hcount]
    exact h.proper.beyond
  · rw [UserSpace.Full, hcount]
    exact h.full

/-- The stack and its guard page come on top of the memory. -/
theorem growStack (h : Built kend root i r tf tramp s role m sz) :
    ∃ s' role' m', ∃ ok : Bool,
      Kernel.uvmalloc kend s r (pgroundup sz) (pgroundup sz + (userstack + 1) * pgsize)
        ⟨false, true, false, false⟩ = some (s', if ok then stackTop sz else 0) ∧
      Within i s role s' role' ∧
      if ok then Built kend root i r tf tramp s' role' m' (stackTop sz) ∧
          m'.seen (stackTop sz) = (m.seen sz).grow sz (stackTop sz) true
        else Built kend root i r tf tramp s' role' m' (pgroundup sz) ∧ s.freelist.length < 6 := by
  have htop : pgroundup sz + (userstack + 1) * pgsize = stackTop sz := by
    rw [stackTop, pgroundup_eq, ← Nat.add_mul]
    rfl
  have hle : pgroundup sz ≤ stackTop sz := by
    rw [← htop]
    exact Nat.le_add_right ..
  have hpos : 0 < stackTop sz := by
    rw [← htop]
    exact Nat.lt_of_lt_of_le (by decide) (Nat.le_add_left ..)
  have hmax : max (pgroundup sz) (stackTop sz) = stackTop sz := Nat.max_eq_right hle
  have hpages : pageCount (stackTop sz) - pageCount (pgroundup sz) = 2 := by
    rw [stackTop, pgroundup_eq, pageCount_mul, pageCount_mul, userstack]
    omega
  obtain ⟨s', role', m', ok, halloc, hin, hcost, h'⟩ :=
    h.roundup.uvmalloc (stackTop sz) ⟨false, true, false, false⟩ (by rwa [hmax])
  rw [hmax] at halloc hcost h'
  rw [hpages] at hcost
  rw [htop]
  refine ⟨s', role', m', ok, halloc, hin, ?_⟩
  cases ok with
  | false => exact ⟨h', hcost⟩
  | true =>
      refine ⟨h'.1, h'.2.trans ?_⟩
      rw [UserSpace.seen_pgroundup, Seen.grow_pgroundup]

/-- The guard page is taken away, and the page above it can be used. -/
theorem clearGuard (h : Built kend root i r tf tramp s role m (stackTop sz)) {v : Seen}
    (hseen : m.seen (stackTop sz) = v.grow sz (stackTop sz) true) :
    ∃ s' m', Vm.uvmclear s r (stackTop sz - (userstack + 1) * pgsize) = some s' ∧
      Within i s role s' role ∧ Holds kend s' root role none [] i r m' ∧
      Proper m' (stackTop sz) tf tramp ∧
      m'.seen (stackTop sz) = (m.seen (stackTop sz)).hide (pageCount sz) ∧
      m'.Usable (stackTop sz) (stackTop sz - userstack * pgsize) := by
  have htop : stackTop sz = (pageCount sz + 2) * pgsize := rfl
  have hcount : pageCount (stackTop sz) = pageCount sz + 2 := by
    rw [htop, pageCount_mul]
  have haddr : stackTop sz - (userstack + 1) * pgsize = pageCount sz * pgsize := by
    rw [htop, userstack, Nat.add_mul]
    omega
  have hbase : stackTop sz - userstack * pgsize = (pageCount sz + 1) * pgsize := by
    rw [htop, userstack, Nat.add_mul, Nat.add_mul]
    omega
  have hlt : pageCount sz < pageCount (stackTop sz) := by omega
  obtain ⟨data, flags, hpage, -⟩ := h.full (pageCount sz) hlt
  obtain ⟨s', hclear, hin, h'⟩ :=
    h.holds.uvmclear (lt_maxva (h.proper.user_lt hlt)) hpage
  have hseen' := UserSpace.seen_hide m (stackTop sz) (pageCount sz) data flags
  refine ⟨s', _, by rwa [haddr], hin, h', h.proper.update hlt, hseen', fun a ha hatop => ?_⟩
  have hstack : a / pgsize = pageCount sz + 1 := by
    rw [hbase] at ha
    rw [htop] at hatop
    unfold pgsize at ha hatop ⊢
    omega
  have hne : pageCount sz + 1 ≠ pageCount sz := Nat.succ_ne_self _
  rw [hstack, Seen.Writable, hstack]
  constructor
  · obtain ⟨data', flags', hpage', hu'⟩ := h.full (pageCount sz + 1) (by omega)
    exact ⟨data', flags', by rw [Function.update_of_ne hne, hpage'], hu'⟩
  · refine ⟨Page.zero, ?_⟩
    rw [hseen', Seen.hide, Function.update_of_ne hne, hseen, Seen.grow, if_pos (by omega)]

/-- `kexec` makes the stack of the image, or there is none, or six frames are not
    free. -/
theorem setupStack (h : Built kend root i r tf tramp s role m sz) {argv : List (List UInt8)}
    (hargs : argv.length < maxarg) (p : Image) :
    ∃ s' role' m' sz' res, Vm.setupStack kend s p r sz argv = some (s', sz', res) ∧
      Within i s role s' role' ∧ Holds kend s' root role' none [] i r m' ∧
      Proper m' sz' tf tramp ∧
      (stackImage argv (sz, m.seen sz) = res.map (fun _ => (sz', m'.seen sz')) ∨
        res = none ∧ s.freelist.length < 6) := by
  obtain ⟨s1, role1, m1, ok, halloc, hin1, h1⟩ := h.growStack
  simp only [Vm.setupStack, halloc, Option.bind_eq_bind, Option.bind_some]
  cases ok with
  | false =>
      obtain ⟨h1, hshort⟩ := h1
      exact ⟨s1, role1, m1, _, none, rfl, hin1, h1.holds, h1.proper, Or.inr ⟨rfl, hshort⟩⟩
  | true =>
      obtain ⟨h1, hseen1⟩ := h1
      obtain ⟨s2, m2, hclear, hin2, h2, hm2, hseen2, husable⟩ := h1.clearGuard hseen1
      have hpos : stackTop sz ≠ 0 := by
        rw [stackTop, userstack, pgsize]
        omega
      have hbase : 0 < stackTop sz - userstack * pgsize := by
        rw [stackTop, userstack, pgsize]
        omega
      -- the arguments go from the top of the stack down to its base
      obtain ⟨s3, role3, m3, res, hpush, hacc, husable3, himage, hres⟩ :=
        h2.pushArgs hm2 husable hbase (Nat.le_refl _)
          (show 0 + argv.length ≤ maxarg by omega) p
      have hin3 := (hin1.trans hin2).trans hacc.within
      rw [if_pos rfl, if_neg hpos, hclear, Option.bind_some, hpush, Option.bind_some]
      simp only [stackImage]
      rw [hseen1] at hseen2
      rw [← hseen2, himage]
      cases res with
      | none => exact ⟨s3, role3, m3, _, none, rfl, hin3, hacc.holds, hacc.proper, Or.inl rfl⟩
      | some res =>
          obtain ⟨sp, ustack⟩ := res
          obtain ⟨hsp, hlen⟩ := hres sp ustack rfl
          have hroom : ¬ maxarg ≤ ustack.length := by omega
          generalize hnew : pushSp sp ((ustack.length + 1) * 8) = new
          have hnew' : sp - (ustack.length + 1) * 8 - (sp - (ustack.length + 1) * 8) % 16 = new :=
            hnew
          simp only [Option.map_some, Option.bind_eq_bind]
          rw [if_neg hroom, hnew', Option.bind_some, hnew]
          -- then come their addresses, if there is room
          by_cases hlt : new < stackTop sz - userstack * pgsize
          · rw [if_pos hlt, if_pos hlt]
            exact ⟨s3, role3, m3, _, none, rfl, hin3, hacc.holds, hacc.proper, Or.inl rfl⟩
          · have hfit : new + ((ustack ++ [0]).flatMap Vm.u64Bytes).length ≤ stackTop sz := by
              rw [length_u64Bytes, List.length_append, List.length_singleton]
              refine Nat.le_trans ?_ hsp
              rw [← hnew]
              exact pushSp_add_le (by omega)
            obtain ⟨s', role', m', hcopy, hacc', hseen, -⟩ :=
              hacc.holds.copyout_all hacc.proper husable3 (Nat.not_lt.mp hlt) hfit p
            rw [if_neg hlt, if_neg hlt, hcopy, Option.bind_some]
            refine ⟨s', role', m', _, some new, rfl, hin3.trans hacc'.within, hacc'.holds,
              hacc'.proper, Or.inl ?_⟩
            rw [hseen]
            rfl

end Built

end Stack

end G20OsLab.Kernel
