/-
  G20OsLab.Kernel.ExecImage

  The memory that `kexec` builds.

  `execImage` says what it is: a function of the program file and the
  arguments.  `Built` is what holds of the page table that `kexec` fills: all
  pages below the size so far are there.  The program headers give what the
  image has (`Built.loads`), or there were fewer free frames than three for
  each page of it.  The kernel's panics (a page of a segment that is not there, a
  page mapped twice) do not happen, whatever is in the file.
-/

import Mathlib.Data.Fintype.Card
import G20OsLab.Kernel.Spaces

namespace G20OsLab.Kernel

open Lib (Frame Role Forest Intact Linked slotAt setSlot entry nodeAt)

/-! ## The image -/

namespace Seen

/-- New pages of zeros between two sizes. -/
def grow (v : Seen) (old new : Nat) (w : Bool) : Seen := fun n =>
  if pageCount old ≤ n ∧ n < pageCount new then some (Page.zero, w) else v n

/-- A page is made inaccessible. -/
def hide (v : Seen) (n : Nat) : Seen := Function.update v n none

end Seen

/-- A size, and what is seen below it. -/
abbrev View := Nat × Seen

/-- `n` pages of a segment from offset `i` on. -/
def segmentImage (file : ExecFile) (va offset sz : Nat) : (n : Nat) → (i : Nat) → Seen → Option Seen
  | 0, _, v => some v
  | n + 1, i, v =>
      let len := min (sz - i) pgsize
      let bytes := (file.data ((offset + i) % 2 ^ 32) len).take len
      if bytes.length = len then
        segmentImage file va offset sz n (i + pgsize) (v.write (va + i) bytes)
      else none

/-- The segments of the `n` program headers from `off` on. -/
def phdrsImage (file : ExecFile) : (n : Nat) → (off : Nat) → View → Option View
  | 0, _, img => some img
  | n + 1, off, img => do
      let ph ← file.ph (off % 2 ^ 32)
      if ph.type ≠ elfProgLoad then phdrsImage file n (off + proghdrSize) img
      else if ph.memsz < ph.filesz ∨ 2 ^ 64 ≤ ph.vaddr + ph.memsz ∨ ph.vaddr % pgsize ≠ 0 then none
      else
        let sz := max img.1 (ph.vaddr + ph.memsz)
        if sz = 0 then none
        else
          let v ← segmentImage file ph.vaddr (ph.off % 2 ^ 32) (ph.filesz % 2 ^ 32)
            (pageCount (ph.filesz % 2 ^ 32)) 0 (img.2.grow img.1 sz (ph.flags.testBit 1))
          phdrsImage file n (off + proghdrSize) (sz, v)

/-- `sp` moved down by `len` bytes, and aligned. -/
def pushSp (sp len : Nat) : Nat := sp - len - (sp - len) % 16

/-- The arguments, and the stack pointer and the addresses after them. -/
def argsImage (stackbase : Nat) : (argv : List (List UInt8)) → (sp : Nat) → Seen →
    Option (Nat × List Nat × Seen)
  | [], sp, v => some (sp, [], v)
  | arg :: argv, sp, v =>
      let sp := pushSp sp (arg.length + 1)
      if sp < stackbase then none
      else do
        let (sp', ustack, v) ← argsImage stackbase argv sp (v.write sp (arg ++ [0]))
        some (sp', sp :: ustack, v)

/-- The end of the stack above memory of size `sz`. -/
def stackTop (sz : Nat) : Nat := (pageCount sz + userstack + 1) * pgsize

/-- The stack, above a guard page. -/
def stackImage (argv : List (List UInt8)) (img : View) : Option View := do
  let top := stackTop img.1
  let base := top - userstack * pgsize
  let v := (img.2.grow img.1 top true).hide (pageCount img.1)
  let (sp, ustack, v) ← argsImage base argv top v
  let sp := pushSp sp ((ustack.length + 1) * 8)
  if sp < base then none else some (top, v.write sp ((ustack ++ [0]).flatMap Vm.u64Bytes))

/-- The memory of a process after a successful `kexec`. -/
def execImage (file : ExecFile) (argv : List (List UInt8)) : Option View := do
  let elf ← file.elf
  if elf.magic ≠ elfMagic then none
  else
    let img ← phdrsImage file elf.phnum elf.phoff (0, fun _ => none)
    stackImage argv img

section ExecImage

variable {ι : Type} {kend tramp : Nat} {s s' : Phys} {root : ι → Option Nat}
variable {role role' : Roles ι} {i : ι} {f r n sz newsz tf : Nat} {xperm : PteFlags}
variable {m m' : UserSpace} {file : ExecFile} {ok : Bool}

/-! ## Growing -/

/-- The user pages below the size are all there. -/
def UserSpace.Full (m : UserSpace) (sz : Nat) : Prop := ∀ n, n < pageCount sz → m.Mapped n

/-- The new pages of `uvmalloc`. -/
abbrev UserSpace.grown (m : UserSpace) (sz newsz : Nat) (xperm : PteFlags) : UserSpace :=
  m.withZeros (pageCount sz) (pageCount newsz - pageCount sz) { xperm with r := true, u := true }

/-- A size whose pages end below the trapframe. -/
theorem le_trapframe (h : pageCount newsz ≤ trapframePage) : newsz ≤ trapframe := by
  have hmul := Nat.mul_le_mul_right pgsize h
  rw [← pgroundup_eq, ← trapframe_eq] at hmul
  unfold pgroundup pgrounddown pgsize at hmul
  omega

/-- All pages are there after `uvmalloc`, too. -/
theorem UserSpace.Full.grown (hfull : m.Full sz) : (m.grown sz newsz xperm).Full newsz := by
  intro n hn
  rw [Mapped, UserSpace.grown, withZeros]
  by_cases hnsz : n < pageCount sz
  · rw [if_neg (by omega)]
    exact hfull n hnsz
  · rw [if_pos (by omega)]
    exact ⟨Page.zero, _, rfl, rfl⟩

namespace Proper

/-- The new pages are the process's own. -/
theorem grown (hm : Proper m sz tf tramp) (hnew : pageCount newsz ≤ trapframePage)
    (hle : sz ≤ newsz) : Proper (m.grown sz newsz xperm) newsz tf tramp := by
  have hcount := pageCount_mono hle
  refine ⟨le_trapframe hnew, ?_, ?_, ?_, ?_⟩
  · intro x _ hx f flags
    rw [UserSpace.grown, UserSpace.withZeros]
    by_cases hxsz : pageCount sz ≤ x
    · rw [if_pos (by omega)]
      simp
    · rw [if_neg (by omega)]
      exact hm.own x (Nat.zero_le x) (by omega) f flags
  · rw [UserSpace.grown, UserSpace.withZeros, if_neg (by omega), hm.trapframe]
  · rw [UserSpace.grown, UserSpace.withZeros, if_neg (by omega), hm.trampoline]
  · intro x hx htf htramp
    rw [UserSpace.grown, UserSpace.withZeros, if_neg (by omega), hm.beyond x (by omega) htf htramp]

/-- They are seen as zeros. -/
theorem seen_grown (hm : Proper m sz tf tramp) (hnew : pageCount newsz ≤ trapframePage)
    (hle : sz ≤ newsz) :
    (m.grown sz newsz xperm).seen newsz = (m.seen sz).grow sz newsz xperm.w := by
  have hcount := pageCount_mono hle
  have hgrown : Proper (m.grown sz newsz xperm) newsz tf tramp := hm.grown hnew hle
  funext n
  rw [Seen.grow]
  by_cases hn : n < pageCount sz
  · rw [if_neg (by omega), UserSpace.seen, UserSpace.grown, UserSpace.withZeros,
      if_neg (by omega), UserSpace.seen]
    have hlt := lt_pageCount.mp hn
    rw [if_pos hlt, if_pos (by omega)]
  · by_cases hnew' : n < pageCount newsz
    · have hpage : m.grown sz newsz xperm n =
          some (.page Page.zero, { xperm with r := true, u := true }) := by
        rw [UserSpace.grown, UserSpace.withZeros, if_pos (by omega)]
      rw [if_pos (by omega), UserSpace.seen_page hpage rfl]
    · rw [if_neg (by omega), hgrown.seen_beyond (Nat.not_lt.mp hnew'),
        hm.seen_beyond (Nat.not_lt.mp hn)]

end Proper

/-- The memory of size `sz` that `kexec` has built so far in page table `i`. -/
structure Built (kend : Nat) (root : ι → Option Nat) (i : ι) (r tf tramp : Nat) (s : Phys)
    (role : Roles ι) (m : UserSpace) (sz : Nat) : Prop where
  holds : Holds kend s root role none [] i r m
  proper : Proper m sz tf tramp
  full : m.Full sz

namespace Built

/-- The pages of an address space and the free frames are different frames. -/
theorem room (h : Built kend root i r tf tramp s role m sz) :
    pageCount sz + s.freelist.length ≤ physTop := by
  have hframe : ∀ n : Fin (pageCount sz), ∃ f, role f = .place i (vpath n) := by
    intro n
    obtain ⟨data, flags, hm, -⟩ := h.full n n.isLt
    obtain ⟨f, -, hf, -⟩ := h.holds.page_frame (by simp) hm
    exact ⟨f, hf⟩
  have hlt : ∀ n : Fin (pageCount sz), n.val < pages := by
    intro n
    obtain ⟨data, flags, hm, -⟩ := h.full n n.isLt
    exact h.holds.lt_of_mapped (by simp [hm])
  choose frame hframe using hframe
  have hinj : Function.Injective frame := by
    intro a b hab
    have hpath := (hframe a).symm.trans ((congrArg role hab).trans (hframe b))
    exact Fin.ext (vpath_inj (hlt a) (hlt b) (Role.place.inj hpath).2)
  have hdisjoint : Disjoint (Finset.univ.image frame) s.freelist.toFinset := by
    rw [Finset.disjoint_left]
    intro f hf hfree
    obtain ⟨n, -, rfl⟩ := Finset.mem_image.mp hf
    rw [List.mem_toFinset, h.holds.freelist, hframe] at hfree
    cases hfree
  have hsub : Finset.univ.image frame ∪ s.freelist.toFinset ⊆ Finset.range physTop := by
    intro f hf
    rw [Finset.mem_range]
    refine (h.holds.range f ?_).2
    rcases Finset.mem_union.mp hf with hf | hf
    · obtain ⟨n, -, rfl⟩ := Finset.mem_image.mp hf
      rw [hframe]
      simp
    · rw [List.mem_toFinset, h.holds.freelist] at hf
      rw [hf]
      simp
  have hcard := Finset.card_le_card hsub
  rw [Finset.card_union_of_disjoint hdisjoint, Finset.card_image_of_injective _ hinj,
    Finset.card_fin, List.toFinset_card_of_nodup h.holds.nodup, Finset.card_range] at hcard
  exact hcard

/-- `uvmalloc` in `kexec`: the size does not shrink.  It fails if the memory stays
    empty, or if frames run out. -/
theorem uvmalloc (h : Built kend root i r tf tramp s role m sz) (newsz : Nat)
    (xperm : PteFlags) (hpos : 0 < max sz newsz) :
    ∃ s' role' m', ∃ ok : Bool,
      uvmalloc kend s r sz newsz xperm = some (s', if ok then max sz newsz else 0) ∧
      Within i s role s' role' ∧
      Costs (3 * (pageCount (max sz newsz) - pageCount sz)) s s' ok ∧
      if ok then Built kend root i r tf tramp s' role' m' (max sz newsz) ∧
          m'.seen (max sz newsz) = (m.seen sz).grow sz (max sz newsz) xperm.w
        else Built kend root i r tf tramp s' role' m' sz := by
  by_cases hlt : newsz < sz
  · have hmax : max sz newsz = sz := Nat.max_eq_left (Nat.le_of_lt hlt)
    refine ⟨s, role, m, true, ?_, Within.refl, (Costs.of_eq rfl).mono (Nat.zero_le _), ?_⟩
    · rw [Kernel.uvmalloc, if_pos hlt, if_pos rfl, hmax]
    · rw [if_pos rfl, hmax]
      refine ⟨h, funext fun n => ?_⟩
      rw [Seen.grow, if_neg (by omega)]
  · have hle := Nat.not_lt.mp hlt
    have hmax : max sz newsz = newsz := Nat.max_eq_right hle
    have hroom := h.room
    have htop : physTop ≤ trapframePage := by decide
    rw [hmax] at hpos ⊢
    obtain ⟨s', role', ok, halloc, hin, h'⟩ := h.holds.uvmalloc xperm hle (by omega)
      fun x hx hxt => h.proper.beyond x hx (by omega) (by omega)
    have hcost := uvmalloc_costs hle hpos halloc
    cases ok with
    | false => exact ⟨s', role', m, false, halloc, hin, hcost, h', h.proper, h.full⟩
    | true =>
        obtain ⟨hnew, h'⟩ := h'
        rw [if_pos rfl, decide_eq_true (by omega)] at hcost
        exact ⟨s', role', _, true, halloc, hin, hcost,
          ⟨h', h.proper.grown hnew hle, h.full.grown⟩, h.proper.seen_grown hnew hle⟩

/-! ## Segments -/

/-- A page is written from its start. -/
theorem write (h : Built kend root i r tf tramp s role m sz) (hn : n < pageCount sz)
    {bytes : List UInt8} (hlen : bytes.length ≤ pgsize) :
    ∃ f data s' m', walkaddr s r (n * pgsize) = some (some f) ∧ s.loadPage f = some data ∧
      s.storePage f (data.write 0 bytes) = some s' ∧ s'.freelist = s.freelist ∧
      Within i s role s' role ∧ Built kend root i r tf tramp s' role m' sz ∧
      m'.seen sz = (m.seen sz).write (n * pgsize) bytes := by
  obtain ⟨data, flags, hpage, hu⟩ := h.full n hn
  obtain ⟨f, hwalk, hf⟩ := h.holds.walkaddr_page (lt_maxva (h.proper.user_lt hn)) hpage hu
  obtain ⟨f', -, hf', hdata⟩ := h.holds.page_frame (by simp) hpage
  obtain rfl := h.holds.forest.place_unique hf hf'
  have hacc : Accesses kend root [] i r sz tf tramp s role m _ role _ :=
    .write h.holds h.proper hpage hu hf (data.write 0 bytes)
  refine ⟨f, data, _, _, hwalk, Phys.loadPage_eq hdata, Phys.storePage_eq hdata _, rfl,
    hacc.within, ⟨hacc.holds, hacc.proper, fun x hx => hacc.mapped x (h.full x hx)⟩, ?_⟩
  have hdiv : n * pgsize / pgsize = n := Nat.mul_div_cancel n (by decide)
  have hmod : n * pgsize % pgsize = 0 := Nat.mul_mod_left ..
  rw [UserSpace.seen_update hu, Seen.write_page (by omega), hdiv, hmod,
    UserSpace.seen_page hpage hu]
  rfl

/-- The loop of `loadseg` finds every page, and stops where the file ends. -/
theorem loadLoop (h : Built kend root i r tf tramp s role m sz) (file : ExecFile)
    {va offset filesz c : Nat} (hva : va % pgsize = 0) (hfit : va + filesz ≤ sz)
    (hrange : ∀ k, k < n → (c + k) * pgsize < filesz) :
    ∃ s' m', ∃ ok : Bool,
      Vm.loadLoop file r va offset filesz n s (c * pgsize) = some (s', ok) ∧
      s'.freelist = s.freelist ∧ Within i s role s' role ∧
      Built kend root i r tf tramp s' role m' sz ∧
      segmentImage file va offset filesz n (c * pgsize) (m.seen sz) =
        if ok then some (m'.seen sz) else none := by
  induction n generalizing s m c with
  | zero => exact ⟨s, m, true, rfl, rfl, Within.refl, h, rfl⟩
  | succ n ih =>
      have hlen : (if filesz - c * pgsize < pgsize then filesz - c * pgsize else pgsize) =
          min (filesz - c * pgsize) pgsize := by
        split <;> omega
      have haddr : va + c * pgsize = (va / pgsize + c) * pgsize := by
        rw [Nat.add_mul, Nat.div_mul_cancel (Nat.dvd_of_mod_eq_zero hva)]
      -- the segment lies below the size, so its pages are there
      have hlt : va / pgsize + c < pageCount sz := by
        rw [lt_pageCount, ← haddr]
        have hc := hrange 0 (Nat.succ_pos n)
        rw [Nat.add_zero] at hc
        omega
      generalize hbytes : (file.data ((offset + c * pgsize) % 2 ^ 32)
        (min (filesz - c * pgsize) pgsize)).take (min (filesz - c * pgsize) pgsize) = bytes
      have hsize : bytes.length ≤ pgsize := by
        rw [← hbytes, List.length_take]
        omega
      obtain ⟨f, data, s1, m1, hwalk, hload, hstore, hfree, hin, h1, hseen⟩ := h.write hlt hsize
      rw [← haddr] at hwalk hseen
      -- `readi` may come to the end of the file
      by_cases hshort : bytes.length = min (filesz - c * pgsize) pgsize
      · obtain ⟨s', m', ok, hloop, hfree', hin', h', himage⟩ :=
          ih h1 (c := c + 1) fun k hk => by
            have hnext := hrange (k + 1) (by omega)
            rwa [Nat.add_right_comm]
        rw [Nat.succ_mul] at hloop himage
        refine ⟨s', m', ok, ?_, hfree'.trans hfree, hin.trans hin', h', ?_⟩
        · simp only [Vm.loadLoop, hwalk, hlen, hbytes, hload, hstore, Option.bind_eq_bind,
            Option.bind_some, hshort, ne_eq, not_true_eq_false, if_false, hloop]
        · simp only [segmentImage, hbytes, hshort, if_true]
          rw [← hseen, himage]
      · refine ⟨s1, m1, false, ?_, hfree, hin, h1, ?_⟩
        · simp only [Vm.loadLoop, hwalk, hlen, hbytes, hload, hstore, Option.bind_eq_bind,
            Option.bind_some, ne_eq, hshort, not_false_eq_true, if_true]
        · simp only [segmentImage, hbytes, hshort, if_false, Bool.false_eq_true]

/-- `loadseg` reads a segment that fits into the memory. -/
theorem loadseg (h : Built kend root i r tf tramp s role m sz) (file : ExecFile) {va : Nat}
    (offset : Nat) {filesz : Nat} (hva : va % pgsize = 0) (hfit : va + filesz ≤ sz) :
    ∃ s' m', ∃ ok : Bool, Vm.loadseg s file r va offset filesz = some (s', ok) ∧
      s'.freelist = s.freelist ∧ Within i s role s' role ∧
      Built kend root i r tf tramp s' role m' sz ∧
      segmentImage file va offset filesz (pageCount filesz) 0 (m.seen sz) =
        if ok then some (m'.seen sz) else none := by
  have hrange : ∀ k, k < pageCount filesz → (0 + k) * pgsize < filesz := fun k hk => by
    rw [Nat.zero_add]
    exact lt_pageCount.mp hk
  simpa only [Vm.loadseg, pageCount, Nat.zero_mul] using h.loadLoop file hva hfit hrange

end Built

/-! ## Program headers -/

section Headers

variable {off : Nat} {img img' : View} {ph : ProgHdr}

/-- The file ends in the headers. -/
theorem phdrsImage_none (hph : file.ph (off % 2 ^ 32) = none) (img : View) :
    phdrsImage file (n + 1) off img = none := by
  rw [phdrsImage, hph]
  rfl

/-- A header that asks for nothing. -/
theorem phdrsImage_skip (hph : file.ph (off % 2 ^ 32) = some ph) (htype : ph.type ≠ elfProgLoad)
    (img : View) : phdrsImage file (n + 1) off img = phdrsImage file n (off + proghdrSize) img := by
  rw [phdrsImage, hph]
  exact if_pos htype

/-- A header of a segment that is refused. -/
theorem phdrsImage_bad (hph : file.ph (off % 2 ^ 32) = some ph) (htype : ph.type = elfProgLoad)
    (hbad : ph.memsz < ph.filesz ∨ 2 ^ 64 ≤ ph.vaddr + ph.memsz ∨ ph.vaddr % pgsize ≠ 0)
    (img : View) : phdrsImage file (n + 1) off img = none := by
  rw [phdrsImage, hph]
  exact (if_neg (not_not.mpr htype)).trans (if_pos hbad)

/-- A header of a segment. -/
theorem phdrsImage_load (hph : file.ph (off % 2 ^ 32) = some ph) (htype : ph.type = elfProgLoad)
    (hgood : ¬ (ph.memsz < ph.filesz ∨ 2 ^ 64 ≤ ph.vaddr + ph.memsz ∨ ph.vaddr % pgsize ≠ 0))
    (img : View) : phdrsImage file (n + 1) off img =
      if max img.1 (ph.vaddr + ph.memsz) = 0 then none
      else (segmentImage file ph.vaddr (ph.off % 2 ^ 32) (ph.filesz % 2 ^ 32)
          (pageCount (ph.filesz % 2 ^ 32)) 0
          (img.2.grow img.1 (max img.1 (ph.vaddr + ph.memsz)) (ph.flags.testBit 1))).bind
        fun v => phdrsImage file n (off + proghdrSize) (max img.1 (ph.vaddr + ph.memsz), v) := by
  rw [phdrsImage, hph]
  exact (if_neg (not_not.mpr htype)).trans (if_neg hgood)

/-- The image does not shrink. -/
theorem phdrsImage_le (h : phdrsImage file n off img = some img') : img.1 ≤ img'.1 := by
  induction n generalizing off img with
  | zero =>
      cases h
      exact Nat.le_refl _
  | succ n ih =>
      rw [phdrsImage] at h
      obtain ⟨ph, -, h⟩ := Option.bind_eq_some_iff.mp h
      split at h
      · exact ih h
      · obtain ⟨-, h⟩ := Option.ite_none_left_eq_some.mp h
        obtain ⟨-, h⟩ := Option.ite_none_left_eq_some.mp h
        obtain ⟨v, -, h⟩ := Option.bind_eq_some_iff.mp h
        exact Nat.le_trans (Nat.le_max_left ..) (ih h)

end Headers

/-- What the loop of `kexec` over `n` program headers from `off` on comes to: it
    builds the image, or stops because there is none, or fewer free frames than
    three for each new page of it. -/
structure Loads (kend : Nat) (root : ι → Option Nat) (i : ι) (r tf tramp : Nat)
    (file : ExecFile) (n off : Nat) (s : Phys) (role : Roles ι) (m : UserSpace) (sz : Nat)
    (s' : Phys) (role' : Roles ι) (m' : UserSpace) (sz' : Nat) (ok : Bool) : Prop where
  call : Vm.loadPhdrs kend file r n s off sz = some (s', sz', ok)
  within : Within i s role s' role'
  built : Built kend root i r tf tramp s' role' m' sz'
  costs : ∀ img, phdrsImage file n off (sz, m.seen sz) = some img →
    Costs (3 * (pageCount img.1 - pageCount sz)) s s' ok
  image : ok = true → phdrsImage file n off (sz, m.seen sz) = some (sz', m'.seen sz')

namespace Built

variable {off : Nat} {ph : ProgHdr}

/-- All headers have been read. -/
theorem loads_nil (h : Built kend root i r tf tramp s role m sz) :
    Loads kend root i r tf tramp file 0 off s role m sz s role m sz true where
  call := rfl
  within := Within.refl
  built := h
  costs := fun _ _ => (Costs.of_eq rfl).mono (Nat.zero_le _)
  image := fun _ => rfl

/-- The loop stops at once. -/
theorem loads_stop (h : Built kend root i r tf tramp s role m sz)
    (hcall : Vm.loadPhdrs kend file r n s off sz = some (s, sz, false))
    (himage : phdrsImage file n off (sz, m.seen sz) = none) :
    Loads kend root i r tf tramp file n off s role m sz s role m sz false where
  call := hcall
  within := Within.refl
  built := h
  costs := by simp [himage]
  image := by simp

/-- A segment is loaded, and then the rest of them. -/
theorem loads_segment (h : Built kend root i r tf tramp s role m sz)
    (hph : file.ph (off % 2 ^ 32) = some ph) (htype : ph.type = elfProgLoad)
    (hgood : ¬ (ph.memsz < ph.filesz ∨ 2 ^ 64 ≤ ph.vaddr + ph.memsz ∨ ph.vaddr % pgsize ≠ 0))
    (hrest : ∀ {s role m sz}, Built kend root i r tf tramp s role m sz →
      ∃ s' role' m' sz' ok,
        Loads kend root i r tf tramp file n (off + proghdrSize) s role m sz s' role' m' sz' ok) :
    ∃ s' role' m' sz' ok,
      Loads kend root i r tf tramp file (n + 1) off s role m sz s' role' m' sz' ok := by
  have himage := phdrsImage_load (n := n) hph htype hgood (sz, m.seen sz)
  obtain ⟨hfilesz, hend, haligned⟩ : ¬ ph.memsz < ph.filesz ∧
      ¬ 2 ^ 64 ≤ ph.vaddr + ph.memsz ∧ ¬ ph.vaddr % pgsize ≠ 0 := by
    rwa [← not_or, ← not_or]
  -- the program header passes the checks of the loop
  have hcall : Vm.loadPhdrs kend file r (n + 1) s off sz =
      (Kernel.uvmalloc kend s r sz (ph.vaddr + ph.memsz) (Vm.flags2perm ph.flags)).bind
        fun res => if res.2 = 0 then some (res.1, sz, false)
          else (Vm.loadseg res.1 file r ph.vaddr (ph.off % 2 ^ 32) (ph.filesz % 2 ^ 32)).bind
            fun res' => if res'.2 then Vm.loadPhdrs kend file r n res'.1 (off + proghdrSize) res.2
              else some (res'.1, res.2, false) := by
    rw [Vm.loadPhdrs, hph]
    refine (if_neg (not_not.mpr htype)).trans <| (if_neg hfilesz).trans <|
      (if_neg hend).trans <| (if_neg haligned).trans <| Option.bind_congr fun res _ =>
        if_congr Iff.rfl rfl (Option.bind_congr fun res' _ => ?_)
    obtain ⟨s', ok⟩ := res'
    cases ok <;> rfl
  generalize hmax : max sz (ph.vaddr + ph.memsz) = top at himage
  -- `uvmalloc` returns the size, and 0 is taken for a failure
  by_cases htop : top = 0
  · obtain ⟨rfl, hzero⟩ : sz = 0 ∧ ph.vaddr + ph.memsz = 0 := by omega
    refine ⟨s, role, m, 0, false, h.loads_stop ?_ (by rw [himage, if_pos htop])⟩
    rw [hcall, hzero]
    rfl
  · rw [if_neg htop] at himage
    obtain ⟨s1, role1, m1, ok, halloc, hin, hcost, h1⟩ :=
      h.uvmalloc (ph.vaddr + ph.memsz) (Vm.flags2perm ph.flags) (by omega)
    rw [hmax] at halloc hcost h1
    rw [halloc, Option.bind_some] at hcall
    -- whatever comes after, the image is at least this large
    have hle : ∀ {img}, phdrsImage file (n + 1) off (sz, m.seen sz) = some img →
        top ≤ img.1 := by
      intro img himg
      rw [himage] at himg
      obtain ⟨v, -, hv⟩ := Option.bind_eq_some_iff.mp himg
      exact phdrsImage_le hv
    cases ok with
    | false =>
        refine ⟨s1, role1, m1, sz, false, hcall, hin, h1, fun img himg => ?_, by simp⟩
        have hcount := pageCount_mono (hle himg)
        exact hcost.mono (by omega)
    | true =>
        obtain ⟨h1, hseen⟩ := h1
        -- the file has less of the segment than the memory
        have hfit : ph.vaddr + ph.filesz % 2 ^ 32 ≤ top := by
          have hmod := Nat.mod_le ph.filesz (2 ^ 32)
          omega
        obtain ⟨s2, m2, ok, hseg, hfree, hin', h2, hsegment⟩ :=
          h1.loadseg file (ph.off % 2 ^ 32) (not_ne_iff.mp haligned) hfit
        rw [hseen] at hsegment
        simp only [if_true, if_neg htop, hseg, Option.bind_some] at hcall
        have himage' : phdrsImage file (n + 1) off (sz, m.seen sz) =
            (if ok then some (m2.seen top) else none).bind
              fun v => phdrsImage file n (off + proghdrSize) (top, v) := by
          rw [himage, ← hsegment]
          rfl
        cases ok with
        | false =>
            refine ⟨s2, role1, m2, top, false, hcall, hin.trans hin', h2, ?_, by simp⟩
            intro img himg
            rw [himage'] at himg
            cases himg
        | true =>
            obtain ⟨s', role', m', sz', ok, hloads⟩ := hrest h2
            refine ⟨s', role', m', sz', ok, hcall.trans hloads.call,
              (hin.trans hin').trans hloads.within, hloads.built, ?_, ?_⟩
            · intro img himg
              have hcount := pageCount_mono (hle himg)
              have hcount' : pageCount sz ≤ pageCount top := pageCount_mono (by omega)
              have hfirst := hcost.trans (Costs.of_eq hfree)
              rw [himage'] at himg
              exact (hfirst.trans (hloads.costs img himg)).mono (by omega)
            · intro hok
              rw [himage']
              exact hloads.image hok

/-- The loop of `kexec` over the program headers. -/
theorem loads (h : Built kend root i r tf tramp s role m sz) (file : ExecFile) (n off : Nat) :
    ∃ s' role' m' sz' ok,
      Loads kend root i r tf tramp file n off s role m sz s' role' m' sz' ok := by
  induction n generalizing s role m sz off with
  | zero => exact ⟨s, role, m, sz, true, h.loads_nil⟩
  | succ n ih =>
      cases hph : file.ph (off % 2 ^ 32) with
      | none =>
          refine ⟨s, role, m, sz, false, h.loads_stop ?_ (phdrsImage_none hph _)⟩
          rw [Vm.loadPhdrs, hph]
      | some ph =>
          by_cases htype : ph.type = elfProgLoad
          · by_cases hbad : ph.memsz < ph.filesz ∨ 2 ^ 64 ≤ ph.vaddr + ph.memsz ∨
              ph.vaddr % pgsize ≠ 0
            · refine ⟨s, role, m, sz, false, h.loads_stop ?_ (phdrsImage_bad hph htype hbad _)⟩
              rw [Vm.loadPhdrs, hph]
              simp only [htype]
              split_ifs <;> tauto
            · exact h.loads_segment hph htype hbad fun h' => ih h' (off + proghdrSize)
          · obtain ⟨s', role', m', sz', ok, hloads⟩ := ih h (off + proghdrSize)
            have himage := phdrsImage_skip (n := n) hph htype (sz, m.seen sz)
            refine ⟨s', role', m', sz', ok, ?_, hloads.within, hloads.built, ?_, ?_⟩
            · rw [Vm.loadPhdrs, hph, ← hloads.call]
              exact if_pos htype
            · rw [himage]
              exact hloads.costs
            · rw [himage]
              exact hloads.image

end Built

end ExecImage

end G20OsLab.Kernel
