/-
  G20OsLab.Kernel.LogDisk

  The log on the disk and in the cache.

  What the cache holds of a logged block stays there until it is installed
  (`Coherent`), and the disk is one that recovery turns into a given content
  (`Recovers`): which disk writes keep the two.
-/

import G20OsLab.Kernel.Log

namespace G20OsLab.Kernel

variable {start : UInt32} {s t : LogState} {b c : UInt32} {data : Block}
variable {pins lh : List UInt32} {f : UInt32 → Block} {tail : Nat} {d : Disk}

/-! ## The layout of the disk -/

/-- The log fits between its header and the end of the block numbers. -/
def Fits (start : UInt32) : Prop := start.toNat + logblocks < 2 ^ 32

instance : Decidable (Fits start) := inferInstanceAs (Decidable (_ < _))

/-- A block outside the log. -/
def Home (start b : UInt32) : Prop := b.toNat < start.toNat ∨ start.toNat + logblocks < b.toNat

instance : Decidable (Home start b) := inferInstanceAs (Decidable (_ ∨ _))

/-- The block numbers of the log do not wrap around. -/
theorem logBlock_toNat (hfits : Fits start) (ht : tail < logblocks) :
    (logBlock start tail).toNat = start.toNat + tail + 1 := by
  have hlog : logblocks = 30 := rfl
  unfold Fits at hfits
  rw [logBlock, UInt32.toNat_add, UInt32.toNat_add, UInt32.toNat_ofNat']
  have hone : (1 : UInt32).toNat = 1 := rfl
  rw [hone]
  omega

/-- The header is no home. -/
theorem home_ne_start (hb : Home start b) : b ≠ start := by
  rintro rfl
  unfold Home at hb
  omega

/-- The log has no homes in it. -/
theorem home_ne_logBlock (hfits : Fits start) (ht : tail < logblocks) (hb : Home start b) :
    b ≠ logBlock start tail := by
  rintro rfl
  have hnat := logBlock_toNat hfits ht
  unfold Home at hb
  omega

/-- The header is not among the logged blocks. -/
theorem logBlock_ne_start (hfits : Fits start) (ht : tail < logblocks) :
    logBlock start tail ≠ start := by
  intro h
  have hnat := logBlock_toNat hfits ht
  rw [h] at hnat
  omega

/-- Every logged block has its own place. -/
theorem logBlock_inj (hfits : Fits start) {k : Nat} (ht : tail < logblocks) (hk : k < logblocks)
    (h : logBlock start tail = logBlock start k) : tail = k := by
  have ht' := logBlock_toNat hfits ht
  have hk' := logBlock_toNat hfits hk
  rw [h] at ht'
  omega

/-- `read_head` finds what `write_head` wrote. -/
theorem headerBlocks_headerData (hroom : lh.length ≤ logblocks) :
    headerBlocks (headerData lh data) = lh := by
  have hlog : logblocks = 30 := rfl
  have hcount : (headerData lh data 0).toNat = lh.length := by
    show (UInt32.ofNat lh.length).toNat = lh.length
    rw [UInt32.toNat_ofNat']
    omega
  have hn : lh.length < 2 ^ 31 := by omega
  rw [headerBlocks, hcount, if_pos hn]
  apply List.ext_getElem
  · rw [List.length_map, List.length_range]
  · intro k hk hk'
    rw [List.length_map, List.length_range] at hk
    have hword : k + 1 < 256 := by omega
    rw [List.getElem_map, List.getElem_range, Block.word, dif_pos hword, headerData,
      if_neg (Nat.succ_ne_zero k), Nat.add_sub_cancel, List.getD_eq_getElem?_getD,
      List.getElem?_eq_getElem hk, Option.getD_some]

/-! ## The cache -/

namespace LogState

theorem buf_of_cached {buf : Buf} (h : s.cache b = some buf) : s.buf b = buf := by
  rw [LogState.buf, h]
  rfl

theorem setBuf_buf (buf : Buf) : (s.setBuf b buf).buf c = if c = b then buf else s.buf c := by
  unfold LogState.buf setBuf
  by_cases hc : c = b
  · subst hc
    simp
  · simp [hc]

/-- Reading a block changes no buffer. -/
theorem bread_buf : (s.bread b).buf c = s.buf c := by
  rw [bread, setBuf_buf]
  split
  · rename_i hc
    rw [hc]
  · rfl

/-- Writing a block changes its buffer and the disk. -/
theorem bwrite_buf :
    (s.bwrite b data).buf c = if c = b then { s.buf b with data := data } else s.buf c := by
  unfold bwrite LogState.buf setBuf
  by_cases hc : c = b
  · subst hc
    simp
  · simp [hc]

theorem bwrite_disk : (s.bwrite b data).disk = Function.update s.disk b data := rfl

end LogState

/-- The blocks in `pins` are held in the cache with content `f`, every other
    buffer agrees with the disk and can be recycled. -/
structure Coherent (s : LogState) (pins : List UInt32) (f : UInt32 → Block) : Prop where
  pinned : ∀ b ∈ pins, s.cache b = some ⟨f b, 1⟩
  clean : ∀ b, b ∉ pins → s.buf b = ⟨s.disk b, 0⟩

namespace Coherent

/-- At boot nothing is cached. -/
theorem boot : Coherent (.boot d) [] f where
  pinned := by simp
  clean := fun _ _ => rfl

/-- A pinned buffer has what the operations see. -/
theorem buf_pinned (h : Coherent s pins f) (hb : b ∈ pins) : s.buf b = ⟨f b, 1⟩ :=
  LogState.buf_of_cached (h.pinned b hb)

/-- Nothing but the cache and the disk matters. -/
theorem of_eq (h : Coherent s pins f) (hcache : t.cache = s.cache) (hdisk : t.disk = s.disk) :
    Coherent t pins f where
  pinned := by
    rw [hcache]
    exact h.pinned
  clean := by
    intro b hb
    rw [LogState.buf, hcache, hdisk]
    exact h.clean b hb

/-- A block that is read is cached as it is on the disk. -/
theorem bread (h : Coherent s pins f) (b : UInt32) : Coherent (s.bread b) pins f where
  pinned := by
    intro c hc
    show Function.update s.cache b (some (s.buf b)) c = _
    by_cases hcb : c = b
    · subst hcb
      rw [Function.update_self, h.buf_pinned hc]
    · rw [Function.update_of_ne hcb, h.pinned c hc]
  clean := by
    intro c hc
    rw [LogState.bread_buf]
    exact h.clean c hc

/-- A write of a block that the log does not hold. -/
theorem bwrite (h : Coherent s pins f) (hb : b ∉ pins) : Coherent (s.bwrite b data) pins f where
  pinned := by
    intro c hc
    have hcb : c ≠ b := fun h => hb (h ▸ hc)
    show Function.update s.cache b (some { s.buf b with data := data }) c = _
    rw [Function.update_of_ne hcb, h.pinned c hc]
  clean := by
    intro c hc
    rw [LogState.bwrite_buf, LogState.bwrite_disk]
    by_cases hcb : c = b
    · rw [if_pos hcb, hcb, Function.update_self, h.clean b hb]
    · rw [if_neg hcb, Function.update_of_ne hcb, h.clean c hc]

/-- A block is written home and let go of. -/
theorem unpin (h : Coherent s (b :: pins) f) (hb : b ∉ pins) :
    Coherent ((s.bwrite b (f b)).setBuf b
      { (s.bwrite b (f b)).buf b with refcnt := ((s.bwrite b (f b)).buf b).refcnt - 1 })
      pins f where
  pinned := by
    intro c hc
    have hcb : c ≠ b := fun h => hb (h ▸ hc)
    show Function.update (Function.update s.cache b _) b _ c = _
    rw [Function.update_of_ne hcb, Function.update_of_ne hcb,
      h.pinned c (List.mem_cons_of_mem _ hc)]
  clean := by
    intro c hc
    rw [LogState.setBuf_buf]
    show _ = (⟨Function.update s.disk b (f b) c, 0⟩ : Buf)
    by_cases hcb : c = b
    · rw [if_pos hcb, hcb, Function.update_self, LogState.bwrite_buf, if_pos rfl,
        h.buf_pinned (List.mem_cons_self ..)]
      rfl
    · have hclean : s.buf c = ⟨s.disk c, 0⟩ := h.clean c (by simp [hcb, hc])
      rw [if_neg hcb, Function.update_of_ne hcb, LogState.bwrite_buf, if_neg hcb, hclean]

/-- A buffer that is not pinned may go. -/
theorem evict (h : Coherent s pins f) {buf : Buf} (hbuf : s.cache b = some buf)
    (hfree : buf.refcnt = 0) :
    Coherent { s with cache := Function.update s.cache b none } pins f where
  pinned := by
    intro c hc
    have hcb : c ≠ b := by
      rintro rfl
      rw [h.pinned c hc, Option.some.injEq] at hbuf
      rw [← hbuf] at hfree
      exact absurd hfree Nat.one_ne_zero
    show Function.update s.cache b none c = _
    rw [Function.update_of_ne hcb, h.pinned c hc]
  clean := by
    intro c hc
    by_cases hcb : c = b
    · subst hcb
      simp [LogState.buf]
    · have hclean := h.clean c hc
      show (Function.update s.cache b none c).getD ⟨s.disk c, 0⟩ = _
      rwa [Function.update_of_ne hcb]

/-- A block that is logged already gets a new content. -/
theorem rewrite (h : Coherent s pins f) (hb : b ∈ pins) :
    Coherent (s.setBuf b { s.buf b with data := data }) pins (Function.update f b data) where
  pinned := by
    intro c hc
    show Function.update s.cache b (some { s.buf b with data := data }) c = _
    by_cases hcb : c = b
    · rw [hcb, Function.update_self, Function.update_self, h.buf_pinned hb]
    · rw [Function.update_of_ne hcb, Function.update_of_ne hcb, h.pinned c hc]
  clean := by
    intro c hc
    have hcb : c ≠ b := fun h => hc (h ▸ hb)
    rw [LogState.setBuf_buf, if_neg hcb]
    exact h.clean c hc

/-- A block is logged, with its new content. -/
theorem pin (h : Coherent s pins f) (hb : b ∉ pins) :
    Coherent (s.setBuf b ⟨data, (s.buf b).refcnt + 1⟩) (pins ++ [b])
      (Function.update f b data) where
  pinned := by
    intro c hc
    show Function.update s.cache b (some ⟨data, (s.buf b).refcnt + 1⟩) c = _
    by_cases hcb : c = b
    · rw [hcb, Function.update_self, Function.update_self, h.clean b hb]
    · have hc' : c ∈ pins := by simpa [hcb] using hc
      rw [Function.update_of_ne hcb, Function.update_of_ne hcb, h.pinned c hc']
  clean := by
    intro c hc
    have hcb : c ≠ b := by
      rintro rfl
      simp at hc
    have hc' : c ∉ pins := fun h => hc (List.mem_append_left _ h)
    rw [LogState.setBuf_buf, if_neg hcb]
    exact h.clean c hc'

end Coherent

/-! ## The disk -/

/-- Recovery makes the content `f` of the disk `d`. -/
structure Recovers (start : UInt32) (d : Disk) (f : UInt32 → Block) : Prop where
  nodup : (headerBlocks (d start)).Nodup
  room : (headerBlocks (d start)).length ≤ logblocks
  home : ∀ b ∈ headerBlocks (d start), Home start b
  copied : ∀ k b, (headerBlocks (d start))[k]? = some b → d (logBlock start k) = f b
  rest : ∀ b, Home start b → b ∉ headerBlocks (d start) → d b = f b

namespace Recovers

theorem of_empty (hempty : headerBlocks (d start) = []) (hrest : ∀ b, Home start b → d b = f b) :
    Recovers start d f where
  nodup := by simp [hempty]
  room := by simp [hempty]
  home := by simp [hempty]
  copied := by simp [hempty]
  rest := fun b hb _ => hrest b hb

/-- A log that is empty changes no home. -/
theorem eq_of_empty (h : Recovers start d f) (hempty : headerBlocks (d start) = [])
    (hb : Home start b) : d b = f b :=
  h.rest b hb (by simp [hempty])

/-- A block of the log is written while the header is empty. -/
theorem writeLog (h : Recovers start d f) (hfits : Fits start)
    (hempty : headerBlocks (d start) = []) (ht : tail < logblocks) :
    Recovers start (Function.update d (logBlock start tail) data) f := by
  have hstart : Function.update d (logBlock start tail) data start = d start :=
    Function.update_of_ne (logBlock_ne_start hfits ht).symm ..
  refine of_empty (by rw [hstart, hempty]) fun b hb => ?_
  rw [Function.update_of_ne (home_ne_logBlock hfits ht hb)]
  exact h.eq_of_empty hempty hb

/-- The header is written once the log holds the blocks it names. -/
theorem commit (hfits : Fits start) (hnodup : lh.Nodup) (hroom : lh.length ≤ logblocks)
    (hhome : ∀ b ∈ lh, Home start b)
    (hcopied : ∀ k b, lh[k]? = some b → d (logBlock start k) = f b)
    (hrest : ∀ b, Home start b → b ∉ lh → d b = f b) :
    Recovers start (Function.update d start (headerData lh data)) f := by
  have hheader : headerBlocks (Function.update d start (headerData lh data) start) = lh := by
    rw [Function.update_self, headerBlocks_headerData hroom]
  constructor
  · rwa [hheader]
  · rwa [hheader]
  · rwa [hheader]
  · intro k b hk
    rw [hheader] at hk
    have hlt : k < lh.length := (List.getElem?_eq_some_iff.mp hk).1
    rw [Function.update_of_ne (logBlock_ne_start hfits (Nat.lt_of_lt_of_le hlt hroom))]
    exact hcopied k b hk
  · intro b hb hnot
    rw [hheader] at hnot
    rw [Function.update_of_ne (home_ne_start hb)]
    exact hrest b hb hnot

/-- A block is written home while the header names it. -/
theorem install (h : Recovers start d f) (hfits : Fits start)
    (hb : (headerBlocks (d start))[tail]? = some b) :
    Recovers start (Function.update d b (d (logBlock start tail))) f := by
  have hmem : b ∈ headerBlocks (d start) := List.mem_of_getElem? hb
  have hstart : Function.update d b (d (logBlock start tail)) start = d start :=
    Function.update_of_ne (home_ne_start (h.home b hmem)).symm ..
  constructor
  · rw [hstart]
    exact h.nodup
  · rw [hstart]
    exact h.room
  · rw [hstart]
    exact h.home
  · intro k c hk
    rw [hstart] at hk
    have hlt : k < logblocks :=
      Nat.lt_of_lt_of_le (List.getElem?_eq_some_iff.mp hk).1 h.room
    rw [Function.update_of_ne (home_ne_logBlock hfits hlt (h.home b hmem)).symm]
    exact h.copied k c hk
  · intro c hc hnot
    rw [hstart] at hnot
    have hcb : c ≠ b := fun h => hnot (h ▸ hmem)
    rw [Function.update_of_ne hcb]
    exact h.rest c hc hnot

end Recovers

end G20OsLab.Kernel
