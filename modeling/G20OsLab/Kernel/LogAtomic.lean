/-
  G20OsLab.Kernel.LogAtomic

  The log makes file system operations atomic: with its crashes, recoveries and
  concurrent operations it refines `Lib.AtomicStore` (`log_refines`).

  The relation (`Represents`) says which store a state of the log stands for:
  the operations see what the cache holds of the logged blocks and the disk of
  all others, and a crash at any moment leaves a disk from which recovery makes
  the content last committed.
-/

import G20OsLab.Lib.AtomicStore
import G20OsLab.Kernel.LogDisk

namespace G20OsLab.Kernel

open Lib (AtomicStore StoreEvent storeStep)

variable {start : UInt32} {s t : LogState} {b : UInt32} {data : Block} {i : Fin nproc}
variable {lh : List UInt32} {f : UInt32 → Block} {tail : Nat} {d : Disk}

/-! ## The refinement -/

/-- The blocks whose home is not up to date. -/
def LogState.uninstalled (start : UInt32) (s : LogState) : List UInt32 :=
  match s.pc with
  | .idle | .writeLog _ | .release => s.lh
  | .install tail | .redo tail => s.lh.drop tail
  | .readHead => headerBlocks (s.disk start)

/-- The blocks the log holds in the cache. -/
def LogState.pinned (s : LogState) : List UInt32 :=
  match s.pc with
  | .idle | .writeLog _ | .release => s.lh
  | .install tail => s.lh.drop tail
  | .readHead | .redo _ => []

/-- What holds at each place of the thread that writes the log. -/
def Phase (start : UInt32) (s : LogState) (a : AtomicStore (Fin nproc) UInt32 Block) : Prop :=
  match s.pc with
  | .idle => headerBlocks (s.disk start) = [] ∧ s.committing = false
  | .writeLog tail =>
      headerBlocks (s.disk start) = [] ∧ a.active = ∅ ∧
        (∀ k b, k < tail → s.lh[k]? = some b → s.disk (logBlock start k) = a.current b) ∧
        s.committing = true
  | .install _ =>
      headerBlocks (s.disk start) = s.lh ∧ a.active = ∅ ∧ a.current = a.stable ∧
        s.committing = true
  | .release =>
      headerBlocks (s.disk start) = [] ∧ s.lh = [] ∧ a.active = ∅ ∧ a.current = a.stable ∧
        s.committing = true
  | .readHead => s.lh = [] ∧ a.active = ∅ ∧ a.current = a.stable ∧ s.committing = false
  | .redo _ =>
      headerBlocks (s.disk start) = s.lh ∧ a.active = ∅ ∧ a.current = a.stable ∧
        s.committing = false

/-- The store that a state of the log stands for. -/
structure Represents (start : UInt32) (s : LogState)
    (a : AtomicStore (Fin nproc) UInt32 Block) : Prop where
  active : ∀ i, i ∈ a.active ↔ (s.op i).isSome = true
  outstanding : s.outstanding = a.active.card
  nodup : s.lh.Nodup
  room : s.lh.length ≤ logblocks
  home : ∀ b ∈ s.lh, Home start b
  coherent : Coherent s s.pinned a.current
  recovers : Recovers start s.disk a.stable
  installed : ∀ b, Home start b → b ∉ s.uninstalled start → s.disk b = a.current b
  phase : Phase start s a

/-- Reads and writes are of blocks outside the log. -/
def homeOnly (start : UInt32) (_ : LogState) : LogEvent → Bool
  | .read b | .write _ b _ => decide (Home start b)
  | _ => true

/-- What a step does to the store: the step after the last round of `write_log`
    commits, with the header that names the logged blocks, if there are any. -/
def logObs (s : LogState) : LogEvent → List (StoreEvent (Fin nproc) UInt32 Block)
  | .beginOp i => [.start i]
  | .endOp i => [.finish i]
  | .read b => [.read b (s.buf b).data]
  | .write i b data => [.write i b data]
  | .evict _ => []
  | .commit =>
      match s.pc with
      | .writeLog tail => if s.lh[tail]? = none then [.commit] else []
      | _ => []
  | .crash => [.crash]

/-! ## Steps -/

/-- What a logged write leaves. -/
structure WriteKeeps (s t : LogState) (i : Fin nproc) (logged : Finset UInt32) : Prop where
  disk : t.disk = s.disk
  pc : t.pc = s.pc
  committing : t.committing = s.committing
  outstanding : t.outstanding = s.outstanding
  op : t.op = Function.update s.op i (some logged)

/-- A block that is in the log is absorbed, any other is added to it. -/
theorem write_cases {logged : Finset UInt32} (hi : s.op i = some logged)
    (hs : logStep start (.write i b data) s = some t) :
    WriteKeeps s t i (insert b logged) ∧
      (b ∈ s.lh ∧ t.lh = s.lh ∧
          t.cache =
            ((s.bread b).setBuf b { (s.bread b).buf b with data := data }).cache ∨
        b ∉ s.lh ∧ s.lh.length < logblocks ∧ t.lh = s.lh ++ [b] ∧
          t.cache =
            ((s.bread b).setBuf b ⟨data, ((s.bread b).buf b).refcnt + 1⟩).cache) := by
  simp only [logStep, hi, logWrite] at hs
  split at hs
  · cases hs
  · rename_i hfull
    split at hs
    · cases hs
    · split at hs
      · rename_i hlogged
        obtain rfl := Option.some.inj hs
        exact ⟨⟨rfl, rfl, rfl, rfl, rfl⟩, Or.inl ⟨hlogged, rfl, rfl⟩⟩
      · rename_i hlogged
        obtain rfl := Option.some.inj hs
        refine ⟨⟨rfl, rfl, rfl, rfl, rfl⟩, Or.inr ⟨hlogged, Nat.lt_of_not_ge hfull, rfl, ?_⟩⟩
        generalize (s.bread b) = u
        let x : Buf := { u.buf b with data := data }
        have hbuf : (u.setBuf b x).buf b = x := by rw [LogState.setBuf_buf, if_pos rfl]
        show Function.update (Function.update u.cache b (some x)) b
          (some { (u.setBuf b x).buf b with refcnt := ((u.setBuf b x).buf b).refcnt + 1 }) = _
        rw [Function.update_idem, hbuf]
        rfl

namespace Represents

variable {a : AtomicStore (Fin nproc) UInt32 Block}

/-- After a crash the store has what was stable. -/
theorem crash (h : Represents start s a) :
    Represents start (.boot s.disk) { a with current := a.stable, active := ∅ } where
  active := by simp [LogState.boot]
  outstanding := rfl
  nodup := List.nodup_nil
  room := Nat.zero_le _
  home := by simp [LogState.boot]
  coherent := Coherent.boot
  recovers := h.recovers
  installed := h.recovers.rest
  phase := ⟨rfl, rfl, rfl, rfl⟩

/-- In use, the blocks not installed are those that the log holds in the
    cache. -/
theorem uninstalled_eq (hup : s.Up) : s.uninstalled start = s.pinned := by
  unfold LogState.Up at hup
  unfold LogState.uninstalled LogState.pinned
  cases hpc : s.pc with
  | readHead =>
      rw [hpc] at hup
      exact hup.elim
  | redo tail =>
      rw [hpc] at hup
      exact hup.elim
  | _ => rfl

/-- A process reads what the operations have written. -/
theorem buf_data (h : Represents start s a) (hup : s.Up) (hb : Home start b) :
    (s.buf b).data = a.current b := by
  by_cases hpin : b ∈ s.pinned
  · rw [h.coherent.buf_pinned hpin]
  · rw [h.coherent.clean b hpin]
    exact h.installed b hb (by rwa [uninstalled_eq hup])

/-- An operation is active only while no commit and no recovery is in
    progress. -/
theorem idle_of_active (h : Represents start s a) (hi : (s.op i).isSome = true) :
    s.pc = .idle := by
  have hmem : i ∈ a.active := (h.active i).mpr hi
  have hactive : a.active ≠ ∅ := fun hnone => by simp [hnone] at hmem
  have hphase := h.phase
  unfold Phase at hphase
  split at hphase <;> simp_all

/-- In use and not committing, no thread writes the log. -/
theorem idle_of_up (h : Represents start s a) (hup : s.Up) (hnot : s.committing = false) :
    s.pc = .idle := by
  have hphase := h.phase
  unfold Phase at hphase
  unfold LogState.Up at hup
  split at hphase <;> simp_all

/-- No commit is going on, and the log is empty. -/
theorem idle_phase (h : Represents start s a) (hpc : s.pc = .idle) :
    headerBlocks (s.disk start) = [] ∧ s.committing = false := by
  have hphase := h.phase
  unfold Phase at hphase
  rwa [hpc] at hphase

/-! ### Operations -/

/-- `begin_op` starts an operation of the store. -/
theorem beginOp (h : Represents start s a) (hup : s.Up) (hi : s.op i = none)
    (hs : Kernel.beginOp s i = some t) :
    ∃ b, Lib.run storeStep [.start i] a = some b ∧ Represents start t b := by
  have hnot : i ∉ a.active := by simp [h.active i, hi]
  simp only [Kernel.beginOp, Option.ite_none_left_eq_some, not_or, Option.some.injEq] at hs
  obtain ⟨⟨hcommitting, -⟩, rfl⟩ := hs
  have hpc : s.pc = .idle := h.idle_of_up hup (by simpa using hcommitting)
  refine ⟨{ a with active := insert i a.active }, ?_, ?_⟩
  · rw [Lib.run_singleton, storeStep, if_neg hnot]
  · refine { h with active := ?_, outstanding := ?_, coherent := ?_, phase := ?_ }
    · intro j
      by_cases hj : j = i
      · subst hj
        simp
      · simp [hj, h.active j]
    · show s.outstanding + 1 = ((insert i a.active).card : Int)
      rw [h.outstanding, Finset.card_insert_of_notMem hnot, Int.natCast_succ]
    · exact h.coherent.of_eq rfl rfl
    · simpa only [Phase, hpc] using h.idle_phase hpc

/-- `end_op` ends it. -/
theorem endOp (h : Represents start s a) (hi : (s.op i).isSome = true)
    (hs : Kernel.endOp s i = some t) :
    ∃ b, Lib.run storeStep [.finish i] a = some b ∧ Represents start t b := by
  have hpc := h.idle_of_active hi
  have hmem : i ∈ a.active := (h.active i).mpr hi
  obtain ⟨hheader, hcommitting⟩ := h.idle_phase hpc
  refine ⟨{ a with active := a.active.erase i }, ?_, ?_⟩
  · rw [Lib.run_singleton, storeStep, if_pos hmem]
  · have hactive : ∀ j, j ∈ a.active.erase i ↔
        (Function.update s.op i none j).isSome = true := by
      intro j
      by_cases hj : j = i
      · subst hj
        simp
      · simp [hj, h.active j]
    have hcard : s.outstanding - 1 = ((a.active.erase i).card : Int) := by
      have hpos := Finset.card_pos.mpr ⟨i, hmem⟩
      rw [h.outstanding, Finset.card_erase_of_mem hmem]
      omega
    simp only [Kernel.endOp, hcommitting, Bool.false_eq_true, if_false] at hs
    have hpins : s.pinned = s.lh := by rw [LogState.pinned, hpc]
    have huninstalled : s.uninstalled start = s.lh := by rw [LogState.uninstalled, hpc]
    have hcoherent : Coherent s s.lh a.current := hpins ▸ h.coherent
    have hinstalled : ∀ b, Home start b → b ∉ s.lh → s.disk b = a.current b :=
      huninstalled ▸ h.installed
    split at hs
    -- the last operation: the commit begins
    · rename_i hzero
      obtain rfl := Option.some.inj hs
      have hnone : a.active.erase i = ∅ := by
        rw [hcard, Int.natCast_eq_zero, Finset.card_eq_zero] at hzero
        exact hzero
      exact
        { h with
          active := hactive
          outstanding := hcard
          coherent := hcoherent.of_eq rfl rfl
          installed := hinstalled
          phase := ⟨hheader, hnone, fun k b hk => absurd hk (Nat.not_lt_zero k), rfl⟩ }
    · obtain rfl := Option.some.inj hs
      refine { h with active := hactive, outstanding := hcard, coherent := ?_, phase := ?_ }
      · exact h.coherent.of_eq rfl rfl
      · simpa only [Phase, hpc, and_true] using hheader

/-- `log_write` of a block changes what its operation sees. -/
theorem write (h : Represents start s a) {logged : Finset UInt32} (hi : s.op i = some logged)
    (hb : Home start b) (hs : Kernel.logStep start (.write i b data) s = some t) :
    ∃ b', Lib.run storeStep [.write i b data] a = some b' ∧ Represents start t b' := by
  have hsome : (s.op i).isSome = true := by simp [hi]
  have hpc := h.idle_of_active hsome
  have hmem : i ∈ a.active := (h.active i).mpr hsome
  have hphase := h.idle_phase hpc
  have hpins : s.pinned = s.lh := by rw [LogState.pinned, hpc]
  have huninstalled : s.uninstalled start = s.lh := by rw [LogState.uninstalled, hpc]
  have hcoherent : Coherent (s.bread b) s.lh a.current := (hpins ▸ h.coherent).bread b
  -- absorbed into the log, or added at its end
  obtain ⟨hkept, hlogged⟩ := write_cases hi hs
  have hpc' : t.pc = .idle := hkept.pc.trans hpc
  -- a home outside the log has neither been written nor logged
  have hinstalled : ∀ c, Home start c → c ∉ t.lh →
      t.disk c = Function.update a.current b data c := by
    intro c hc hnot
    have hcb : c ≠ b ∧ c ∉ s.lh := by
      rcases hlogged with ⟨hlh, hsame, -⟩ | ⟨-, -, happend, -⟩
      · rw [hsame] at hnot
        exact ⟨fun h => hnot (h ▸ hlh), hnot⟩
      · simpa [happend, and_comm] using hnot
    rw [hkept.disk, Function.update_of_ne hcb.1]
    exact h.installed c hc (huninstalled ▸ hcb.2)
  have hcached : Coherent t t.lh (Function.update a.current b data) := by
    rcases hlogged with ⟨hlh, hsame, hcache⟩ | ⟨hlh, -, happend, hcache⟩
    · rw [hsame]
      exact (hcoherent.rewrite hlh).of_eq hcache hkept.disk
    · rw [happend]
      exact (hcoherent.pin hlh).of_eq hcache hkept.disk
  refine ⟨{ a with current := Function.update a.current b data }, ?_, ?_⟩
  · rw [Lib.run_singleton, storeStep, if_pos hmem]
  · constructor
    · intro j
      rw [hkept.op]
      by_cases hj : j = i
      · subst hj
        simp [hmem]
      · simp [hj, h.active j]
    · rw [hkept.outstanding, h.outstanding]
    · rcases hlogged with ⟨-, hsame, -⟩ | ⟨hlh, -, happend, -⟩
      · rw [hsame]
        exact h.nodup
      · rw [happend]
        exact List.nodup_append.mpr ⟨h.nodup, List.nodup_singleton b, by
          intro x hx y hy
          rw [List.mem_singleton.mp hy]
          exact fun hxb => hlh (hxb ▸ hx)⟩
    · rcases hlogged with ⟨-, hsame, -⟩ | ⟨-, hroom, happend, -⟩
      · rw [hsame]
        exact h.room
      · rw [happend, List.length_append]
        exact hroom
    · intro c hc
      rcases hlogged with ⟨-, hsame, -⟩ | ⟨-, -, happend, -⟩
      · exact h.home c (hsame ▸ hc)
      · rw [happend, List.mem_append, List.mem_singleton] at hc
        rcases hc with hc | rfl
        · exact h.home c hc
        · exact hb
    · rwa [LogState.pinned, hpc']
    · rw [hkept.disk]
      exact h.recovers
    · rwa [LogState.uninstalled, hpc']
    · rw [Phase, hpc', hkept.disk, hkept.committing]
      exact hphase

/-! ### Commit and recovery -/

/-- A block goes to the log. -/
theorem commit_writeLog (h : Represents start s a) (hfits : Fits start)
    (hpc : s.pc = .writeLog tail) (hs : commitStep start s = some t) :
    ∃ b, Lib.run storeStep (logObs s .commit) a = some b ∧ Represents start t b := by
  have hphase := h.phase
  rw [Phase, hpc] at hphase
  obtain ⟨hheader, hnone, hcopied, hcommitting⟩ := hphase
  have hpins : s.pinned = s.lh := by rw [LogState.pinned, hpc]
  have huninstalled : s.uninstalled start = s.lh := by rw [LogState.uninstalled, hpc]
  have hcoherent : Coherent s s.lh a.current := hpins ▸ h.coherent
  have hinstalled : ∀ b, Home start b → b ∉ s.lh → s.disk b = a.current b :=
    huninstalled ▸ h.installed
  simp only [commitStep, hpc] at hs
  simp only [logObs, hpc]
  split at hs
  · -- a block of the log is written
    rename_i b hb
    obtain rfl := Option.some.inj hs
    have hlt : tail < logblocks :=
      Nat.lt_of_lt_of_le (List.getElem?_eq_some_iff.mp hb).1 h.room
    have hmem : b ∈ s.lh := List.mem_of_getElem? hb
    -- the log is no home, so its buffer is not the one that is copied
    have hlog : logBlock start tail ∉ s.lh := fun hlog =>
      home_ne_logBlock hfits hlt (h.home _ hlog) rfl
    have hread : (((s.bread (logBlock start tail)).bread b).buf b).data = a.current b := by
      rw [LogState.bread_buf, LogState.bread_buf, hcoherent.buf_pinned hmem]
    refine ⟨a, by rw [hb]; rfl, ?_⟩
    refine { h with coherent := ?_, recovers := ?_, installed := ?_, phase := ?_ }
    · exact (((hcoherent.bread _).bread b).bwrite hlog).of_eq rfl rfl
    · exact h.recovers.writeLog hfits hheader hlt
    · intro c hc hnot
      show Function.update s.disk (logBlock start tail) _ c = _
      rw [Function.update_of_ne (home_ne_logBlock hfits hlt hc)]
      exact hinstalled c hc hnot
    · refine ⟨?_, hnone, ?_, hcommitting⟩
      · show headerBlocks (Function.update s.disk (logBlock start tail) _ start) = []
        rw [Function.update_of_ne (logBlock_ne_start hfits hlt).symm, hheader]
      · intro k c hk hc
        show Function.update s.disk (logBlock start tail) _ (logBlock start k) = _
        by_cases hkt : k = tail
        · subst hkt
          obtain rfl := Option.some.inj (hc.symm.trans hb)
          rw [Function.update_self, hread]
        · have hlt' : k < tail := by omega
          have hne : logBlock start k ≠ logBlock start tail := fun heq =>
            hkt (logBlock_inj hfits (by omega) hlt heq)
          rw [Function.update_of_ne hne]
          exact hcopied k c hlt' hc
  · rename_i hend
    rw [if_pos hend]
    -- the log is complete: writing its header is the commit
    have hcommit : storeStep .commit a = some { a with stable := a.current } := if_pos hnone
    refine ⟨_, Lib.run_singleton.trans hcommit, ?_⟩
    split at hs
    · -- nothing was logged
      rename_i hempty
      obtain rfl := Option.some.inj hs
      have hsettled : ∀ b, Home start b → s.disk b = a.current b := fun b hb =>
        hinstalled b hb (by simp [hempty])
      refine { h with coherent := ?_, recovers := ?_, installed := ?_, phase := ?_ }
      · exact hcoherent.of_eq rfl rfl
      · exact Recovers.of_empty hheader hsettled
      · exact hinstalled
      · exact ⟨hheader, hempty, hnone, rfl, hcommitting⟩
    · obtain rfl := Option.some.inj hs
      have hstart : start ∉ s.lh := fun hstart => home_ne_start (h.home _ hstart) rfl
      -- the copies reach up to the end of the log
      have hall : ∀ k b, s.lh[k]? = some b → s.disk (logBlock start k) = a.current b := by
        intro k b hk
        refine hcopied k b ?_ hk
        have hk := (List.getElem?_eq_some_iff.mp hk).1
        have hle := List.getElem?_eq_none_iff.mp hend
        omega
      refine { h with coherent := ?_, recovers := ?_, installed := ?_, phase := ?_ }
      · exact ((hcoherent.bread start).bwrite hstart).of_eq rfl rfl
      · exact Recovers.commit hfits h.nodup h.room h.home hall hinstalled
      · intro b hb hnot
        show Function.update s.disk start _ b = _
        rw [Function.update_of_ne (home_ne_start hb)]
        exact hinstalled b hb hnot
      · refine ⟨?_, hnone, rfl, hcommitting⟩
        show headerBlocks (Function.update s.disk start (headerData s.lh _) start) = s.lh
        rw [Function.update_self, headerBlocks_headerData h.room]

theorem drop_eq_cons (hb : lh[tail]? = some b) : lh.drop tail = b :: lh.drop (tail + 1) := by
  obtain ⟨hlt, rfl⟩ := List.getElem?_eq_some_iff.mp hb
  exact List.drop_eq_getElem_cons hlt

/-- A block is logged once. -/
theorem notMem_drop (hnodup : lh.Nodup) (hb : lh[tail]? = some b) : b ∉ lh.drop (tail + 1) := by
  have hdrop : (lh.drop tail).Nodup := hnodup.sublist (List.drop_sublist tail lh)
  rw [drop_eq_cons hb] at hdrop
  exact (List.nodup_cons.mp hdrop).1

/-- A round of `install_trans` brings one home up to date. -/
theorem installed_update (hb : lh[tail]? = some b) (hdata : d (logBlock start tail) = f b)
    (hdisk : ∀ c, Home start c → c ∉ lh.drop tail → d c = f c) {c : UInt32}
    (hc : Home start c) (hnot : c ∉ lh.drop (tail + 1)) :
    Function.update d b (d (logBlock start tail)) c = f c := by
  by_cases hcb : c = b
  · rw [hcb, Function.update_self, hdata]
  · rw [Function.update_of_ne hcb]
    refine hdisk c hc ?_
    rw [drop_eq_cons hb]
    simpa [hcb] using hnot

/-- A block goes from the log to its home. -/
theorem installTrans_disk {recovering : Bool}
    (hdata : (s.buf (logBlock start tail)).data = s.disk (logBlock start tail)) :
    (installTrans start s recovering tail b).disk =
      Function.update s.disk b (s.disk (logBlock start tail)) := by
  have hread : (((s.bread (logBlock start tail)).bread b).buf (logBlock start tail)).data =
      s.disk (logBlock start tail) := by
    rw [LogState.bread_buf, LogState.bread_buf, hdata]
  rw [← hread]
  cases recovering <;> rfl

/-- `write_head` with an empty log. -/
theorem headerBlocks_clear :
    headerBlocks ((writeHead start { s with lh := [] }).disk start) = [] := by
  show headerBlocks (Function.update s.disk start (headerData [] _) start) = []
  rw [Function.update_self, headerBlocks_headerData (Nat.zero_le _)]

/-- Emptying the header leaves the homes. -/
theorem home_clear (hb : Home start b) :
    (writeHead start { s with lh := [] }).disk b = s.disk b := by
  show Function.update s.disk start _ b = _
  rw [Function.update_of_ne (home_ne_start hb)]

/-- All blocks are at their homes, and the header that named them is cleared. -/
theorem clear_head (h : Represents start s a) (hcoherent : Coherent s [] a.current)
    (hsettled : ∀ b, Home start b → s.disk b = a.current b) (hstable : a.current = a.stable)
    {pc : CommitPc} (ht : t = { writeHead start { s with lh := [] } with pc := pc })
    (hpins : t.pinned = []) (hphase : headerBlocks (t.disk start) = [] → Phase start t a) :
    Represents start t a := by
  subst ht
  refine ⟨h.active, h.outstanding, List.nodup_nil, Nat.zero_le _, ?_, ?_, ?_, ?_, ?_⟩
  · intro b hb
    cases hb
  · rw [hpins]
    exact ((hcoherent.bread start).bwrite List.not_mem_nil).of_eq rfl rfl
  · refine Recovers.of_empty headerBlocks_clear fun b hb => ?_
    exact (home_clear hb).trans ((hsettled b hb).trans (congrFun hstable b))
  · intro b hb _
    exact (home_clear hb).trans (hsettled b hb)
  · exact hphase headerBlocks_clear

/-- A block is installed after the commit. -/
theorem commit_install (h : Represents start s a) (hfits : Fits start)
    (hpc : s.pc = .install tail) (hs : commitStep start s = some t) :
    ∃ b, Lib.run storeStep (logObs s .commit) a = some b ∧ Represents start t b := by
  have hphase := h.phase
  rw [Phase, hpc] at hphase
  obtain ⟨hheader, hnone, hstable, hcommitting⟩ := hphase
  have hcoherent : Coherent s (s.lh.drop tail) a.current := by
    have hpins : s.pinned = s.lh.drop tail := by rw [LogState.pinned, hpc]
    exact hpins ▸ h.coherent
  have hinstalled : ∀ b, Home start b → b ∉ s.lh.drop tail → s.disk b = a.current b := by
    have huninstalled : s.uninstalled start = s.lh.drop tail := by rw [LogState.uninstalled, hpc]
    exact huninstalled ▸ h.installed
  simp only [commitStep, hpc] at hs
  simp only [logObs, hpc]
  refine ⟨a, rfl, ?_⟩
  split at hs
  · rename_i b hb
    obtain rfl := Option.some.inj hs
    have hlt : tail < logblocks :=
      Nat.lt_of_lt_of_le (List.getElem?_eq_some_iff.mp hb).1 h.room
    -- the header is on the disk, so the log has the block
    have hcopied : s.disk (logBlock start tail) = a.current b := by
      rw [hstable]
      exact h.recovers.copied tail b (by rwa [hheader])
    have hlog : logBlock start tail ∉ s.lh.drop tail := fun hlog =>
      home_ne_logBlock hfits hlt (h.home _ (List.mem_of_mem_drop hlog)) rfl
    have hdata : (s.buf (logBlock start tail)).data = s.disk (logBlock start tail) := by
      rw [hcoherent.clean _ hlog]
    have hread : (((s.bread (logBlock start tail)).bread b).buf (logBlock start tail)).data =
        a.current b := by
      rw [LogState.bread_buf, LogState.bread_buf, hdata, hcopied]
    have hdisk : (installTrans start s false tail b).disk = _ := installTrans_disk hdata
    refine { h with coherent := ?_, recovers := ?_, installed := ?_, phase := ?_ }
    · have hbread := (hcoherent.bread (logBlock start tail)).bread b
      rw [drop_eq_cons hb] at hbread
      have hunpin := hbread.unpin (notMem_drop h.nodup hb)
      rw [← hread] at hunpin
      exact hunpin.of_eq rfl rfl
    · show Recovers start (installTrans start s false tail b).disk a.stable
      rw [hdisk]
      exact h.recovers.install hfits (by rwa [hheader])
    · intro c hc hnot
      show (installTrans start s false tail b).disk c = _
      rw [hdisk]
      exact installed_update hb hcopied hinstalled hc hnot
    · refine ⟨?_, hnone, hstable, hcommitting⟩
      show headerBlocks ((installTrans start s false tail b).disk start) = s.lh
      rw [hdisk, Function.update_of_ne (home_ne_start (h.home b (List.mem_of_getElem? hb))).symm,
        hheader]
  · rename_i hend
    obtain rfl := Option.some.inj hs
    -- all is installed, and the header may be cleared
    have hdone : s.lh.drop tail = [] :=
      List.drop_eq_nil_of_le (List.getElem?_eq_none_iff.mp hend)
    rw [hdone] at hcoherent hinstalled
    have hsettled : ∀ b, Home start b → s.disk b = a.current b := fun b hb =>
      hinstalled b hb (List.not_mem_nil)
    exact h.clear_head hcoherent hsettled hstable rfl rfl fun hclear =>
      ⟨hclear, rfl, hnone, hstable, hcommitting⟩

/-- The log is free for the next transaction. -/
theorem commit_release (h : Represents start s a) (hpc : s.pc = .release)
    (hs : commitStep start s = some t) :
    ∃ b, Lib.run storeStep (logObs s .commit) a = some b ∧ Represents start t b := by
  have hphase := h.phase
  rw [Phase, hpc] at hphase
  obtain ⟨hheader, hempty, -, -, -⟩ := hphase
  simp only [commitStep, hpc] at hs
  simp only [logObs, hpc]
  obtain rfl := Option.some.inj hs
  have hpins : s.pinned = s.lh := by rw [LogState.pinned, hpc]
  have huninstalled : s.uninstalled start = s.lh := by rw [LogState.uninstalled, hpc]
  refine ⟨a, rfl, ?_⟩
  refine { h with coherent := ?_, installed := ?_, phase := ?_ }
  · exact (hpins ▸ h.coherent : Coherent s s.lh a.current).of_eq rfl rfl
  · exact huninstalled ▸ h.installed
  · exact ⟨hheader, rfl⟩

/-- Recovery reads the header. -/
theorem commit_readHead (h : Represents start s a) (hpc : s.pc = .readHead)
    (hs : commitStep start s = some t) :
    ∃ b, Lib.run storeStep (logObs s .commit) a = some b ∧ Represents start t b := by
  have hphase := h.phase
  rw [Phase, hpc] at hphase
  obtain ⟨-, hnone, hstable, hcommitting⟩ := hphase
  have hpins : s.pinned = [] := by rw [LogState.pinned, hpc]
  have huninstalled : s.uninstalled start = headerBlocks (s.disk start) := by
    rw [LogState.uninstalled, hpc]
  have hcoherent : Coherent s [] a.current := hpins ▸ h.coherent
  have hread : (s.buf start).data = s.disk start := by
    rw [hcoherent.clean start List.not_mem_nil]
  simp only [commitStep, hpc, readHead, hread] at hs
  simp only [logObs, hpc]
  obtain rfl := Option.some.inj hs
  refine ⟨a, rfl, h.active, h.outstanding, h.recovers.nodup, h.recovers.room, h.recovers.home, ?_,
    h.recovers, ?_, ?_⟩
  · exact (hcoherent.bread start).of_eq rfl rfl
  · exact huninstalled ▸ h.installed
  · exact ⟨rfl, hnone, hstable, hcommitting⟩

/-- Recovery installs a block again. -/
theorem commit_redo (h : Represents start s a) (hfits : Fits start) (hpc : s.pc = .redo tail)
    (hs : commitStep start s = some t) :
    ∃ b, Lib.run storeStep (logObs s .commit) a = some b ∧ Represents start t b := by
  have hphase := h.phase
  rw [Phase, hpc] at hphase
  obtain ⟨hheader, hnone, hstable, hcommitting⟩ := hphase
  have hcoherent : Coherent s [] a.current := by
    have hpins : s.pinned = [] := by rw [LogState.pinned, hpc]
    exact hpins ▸ h.coherent
  have hinstalled : ∀ b, Home start b → b ∉ s.lh.drop tail → s.disk b = a.current b := by
    have huninstalled : s.uninstalled start = s.lh.drop tail := by rw [LogState.uninstalled, hpc]
    exact huninstalled ▸ h.installed
  simp only [commitStep, hpc] at hs
  simp only [logObs, hpc]
  refine ⟨a, rfl, ?_⟩
  split at hs
  · rename_i b hb
    obtain rfl := Option.some.inj hs
    have hcopied : s.disk (logBlock start tail) = a.current b := by
      rw [hstable]
      exact h.recovers.copied tail b (by rwa [hheader])
    -- nothing is pinned after a crash
    have hdata : (s.buf (logBlock start tail)).data = s.disk (logBlock start tail) := by
      rw [hcoherent.clean _ List.not_mem_nil]
    have hdisk : (installTrans start s true tail b).disk = _ := installTrans_disk hdata
    refine { h with coherent := ?_, recovers := ?_, installed := ?_, phase := ?_ }
    · have hbread := (hcoherent.bread (logBlock start tail)).bread b
      exact (hbread.bwrite List.not_mem_nil).of_eq rfl rfl
    · show Recovers start (installTrans start s true tail b).disk a.stable
      rw [hdisk]
      exact h.recovers.install hfits (by rwa [hheader])
    · intro c hc hnot
      show (installTrans start s true tail b).disk c = _
      rw [hdisk]
      exact installed_update hb hcopied hinstalled hc hnot
    · refine ⟨?_, hnone, hstable, hcommitting⟩
      show headerBlocks ((installTrans start s true tail b).disk start) = s.lh
      rw [hdisk, Function.update_of_ne (home_ne_start (h.home b (List.mem_of_getElem? hb))).symm,
        hheader]
  · rename_i hend
    obtain rfl := Option.some.inj hs
    -- all is installed, and the header may be cleared
    have hdone : s.lh.drop tail = [] :=
      List.drop_eq_nil_of_le (List.getElem?_eq_none_iff.mp hend)
    rw [hdone] at hinstalled
    have hsettled : ∀ b, Home start b → s.disk b = a.current b := fun b hb =>
      hinstalled b hb (List.not_mem_nil)
    exact h.clear_head hcoherent hsettled hstable rfl rfl fun hclear => ⟨hclear, hcommitting⟩

/-- Every step of the commit and of recovery. -/
theorem commitStep (h : Represents start s a) (hfits : Fits start)
    (hs : Kernel.commitStep start s = some t) :
    ∃ b, Lib.run storeStep (logObs s .commit) a = some b ∧ Represents start t b := by
  cases hpc : s.pc with
  | idle =>
      rw [Kernel.commitStep, hpc] at hs
      cases hs
  | writeLog tail => exact h.commit_writeLog hfits hpc hs
  | install tail => exact h.commit_install hfits hpc hs
  | release => exact h.commit_release hpc hs
  | readHead => exact h.commit_readHead hpc hs
  | redo tail => exact h.commit_redo hfits hpc hs

end Represents

/-- The log refines the atomic store, step by step. -/
theorem log_simulates (hfits : Fits start) :
    Lib.Simulates (logStep start) (homeOnly start) storeStep logObs (Represents start) := by
  intro s t e a h htest hs
  cases e with
  | beginOp i =>
      simp only [logStep, Option.ite_none_right_eq_some] at hs
      exact h.beginOp hs.1.1 hs.1.2 hs.2
  | endOp i =>
      simp only [logStep, Option.ite_none_right_eq_some] at hs
      exact h.endOp hs.1 hs.2
  | read b =>
      have hb : Home start b := of_decide_eq_true htest
      simp only [logStep, Option.ite_none_right_eq_some, Option.some.injEq] at hs
      obtain ⟨hup, rfl⟩ := hs
      refine ⟨a, ?_, { h with coherent := (h.coherent.bread b).of_eq rfl rfl }⟩
      rw [logObs, Lib.run_singleton, storeStep, if_pos (h.buf_data hup hb).symm]
  | write i b data =>
      have hb : Home start b := of_decide_eq_true htest
      cases hi : s.op i with
      | none => simp [logStep, hi] at hs
      | some logged => exact h.write hi hb hs
  | evict b =>
      simp only [logStep] at hs
      split at hs
      · rename_i buf hbuf
        simp only [Option.ite_none_right_eq_some, Option.some.injEq] at hs
        obtain ⟨hfree, rfl⟩ := hs
        exact ⟨a, rfl, { h with coherent := (h.coherent.evict hbuf hfree).of_eq rfl rfl }⟩
      · cases hs
  | commit => exact h.commitStep hfits hs
  | crash =>
      obtain rfl := Option.some.inj hs
      exact ⟨_, rfl, h.crash⟩

/-! ## Runs -/

/-- The store on a formatted disk. -/
def initStore (disk : Disk) : AtomicStore (Fin nproc) UInt32 Block := ⟨disk, disk, ∅⟩

/-- A disk of zeros. -/
def emptyDisk : Disk := fun _ _ => 0

/-- A disk with an empty log is a store. -/
theorem represents_boot (hempty : headerBlocks (d start) = []) :
    Represents start (.boot d) (initStore d) where
  active := by simp [initStore, LogState.boot]
  outstanding := rfl
  nodup := List.nodup_nil
  room := Nat.zero_le _
  home := by simp [LogState.boot]
  coherent := Coherent.boot
  recovers := Recovers.of_empty hempty fun _ _ => rfl
  installed := fun _ _ _ => rfl
  phase := ⟨rfl, rfl, rfl, rfl⟩

/-- Recovery ends after one step for each block of the log and two more. -/
theorem redo_finishes {a : AtomicStore (Fin nproc) UInt32 Block} (hfits : Fits start)
    (h : Represents start s a) (hpc : s.pc = .redo tail) (hle : tail ≤ s.lh.length) :
    ∃ t, Lib.run (logStep start) (List.replicate (s.lh.length - tail + 1) .commit) s = some t ∧
      t.pc = .idle ∧ Represents start t a := by
  generalize hn : s.lh.length - tail = n
  induction n generalizing s tail with
  | zero =>
      have hend : s.lh[tail]? = none := List.getElem?_eq_none (by omega)
      have hs : commitStep start s =
          some { writeHead start { s with lh := [] } with pc := .idle } := by
        rw [commitStep, hpc]
        simp only [hend]
      obtain ⟨b, hb, ht⟩ := h.commit_redo hfits hpc hs
      simp only [logObs, hpc] at hb
      cases hb
      exact ⟨_, Lib.run_singleton.trans hs, rfl, ht⟩
  | succ n ih =>
      have hb : s.lh[tail]? = some s.lh[tail] := List.getElem?_eq_getElem (by omega)
      have hs : commitStep start s =
          some { installTrans start s true tail s.lh[tail] with pc := .redo (tail + 1) } := by
        rw [commitStep, hpc]
        simp only [hb]
      obtain ⟨b, hb, hu⟩ := h.commit_redo hfits hpc hs
      simp only [logObs, hpc] at hb
      cases hb
      obtain ⟨t, ht, hidle, hrep⟩ :=
        ih hu rfl (by show tail + 1 ≤ s.lh.length; omega) (by show s.lh.length - _ = _; omega)
      refine ⟨t, ?_, hidle, hrep⟩
      rw [List.replicate_succ, Lib.run_cons]
      show (commitStep start s).bind _ = _
      rw [hs]
      exact ht

theorem recovery_finishes {a : AtomicStore (Fin nproc) UInt32 Block} (hfits : Fits start)
    (h : Represents start s a) (hpc : s.pc = .readHead) :
    ∃ n t, n ≤ logblocks + 2 ∧ Lib.run (logStep start) (List.replicate n .commit) s = some t ∧
      t.pc = .idle ∧ Represents start t a := by
  have hs : commitStep start s = some { readHead start s with pc := .redo 0 } := by
    rw [commitStep, hpc]
  obtain ⟨b, hb, hu⟩ := h.commit_readHead hpc hs
  simp only [logObs, hpc] at hb
  cases hb
  obtain ⟨t, ht, hidle, hrep⟩ := redo_finishes hfits hu rfl (Nat.zero_le _)
  have hroom : (readHead start s).lh.length ≤ logblocks := hu.room
  refine ⟨(readHead start s).lh.length + 1 + 1, t, by omega, ?_, hidle, hrep⟩
  · rw [List.replicate_succ, Lib.run_cons]
    show (commitStep start s).bind _ = _
    rw [hs]
    exact ht

section Runs

variable {es : List LogEvent} {disk : Disk}

/-- The log refines the atomic store: on a formatted disk, whatever a run of
    operations, evictions, commits, crashes and recoveries does is what the
    store does on the trace of the run.  The trace has the content that each
    read returns. -/
theorem log_refines (hfits : Fits start) (hempty : headerBlocks (disk start) = [])
    (hrun : Lib.runEvents (logStep start) (homeOnly start) es (.boot disk) = some s) :
    ∃ a, Lib.run storeStep (Lib.trace (logStep start) logObs es (.boot disk)) (initStore disk) =
        some a ∧
      (s.Up → ∀ b, Home start b → (s.buf b).data = a.current b) ∧
      (s.pc = .idle → ∀ b, Home start b → s.disk b = a.stable b) := by
  obtain ⟨a, ha, hrep⟩ := Lib.Simulates.run (log_simulates hfits) (represents_boot hempty) hrun
  refine ⟨a, ha, fun hup b hb => hrep.buf_data hup hb, fun hidle b hb => ?_⟩
  exact hrep.recovers.eq_of_empty (hrep.idle_phase hidle).1 hb

/-- A crash cuts no operation in two: if the kernel crashes at any point of a
    run, recovery ends within 32 steps, and then the disk holds what a run
    without crashes would have made of it that takes a part of the run's events
    and ends with no operation in progress. -/
theorem crash_atomic (hfits : Fits start) (hempty : headerBlocks (disk start) = [])
    (hrun : Lib.runEvents (logStep start) (homeOnly start) es (.boot disk) = some s) :
    ∃ n t u, n ≤ logblocks + 2 ∧
      Lib.run (logStep start) (.crash :: List.replicate n .commit) s = some t ∧ t.pc = .idle ∧
      Lib.run storeStep
          (Lib.survivors (Lib.trace (logStep start) logObs es (.boot disk))) (initStore disk) =
        some u ∧
      u.active = ∅ ∧ ∀ b, Home start b → t.disk b = u.current b := by
  obtain ⟨a, ha, hrep⟩ := Lib.Simulates.run (log_simulates hfits) (represents_boot hempty) hrun
  obtain ⟨u, hu, hnone, hstable⟩ := Lib.stable_eq_run rfl rfl ha
  obtain ⟨n, t, hn, ht, hidle, hrept⟩ := recovery_finishes hfits hrep.crash rfl
  refine ⟨n, t, u, hn, ?_, hidle, hu, hnone, fun b hb => ?_⟩
  · rw [Lib.run_cons]
    exact ht
  · rw [hstable]
    exact hrept.recovers.eq_of_empty (hrept.idle_phase hidle).1 hb

/-- An operation writes one block and commits. -/
def committedEvents : List LogEvent :=
  [.commit, .commit, .beginOp initSlot, .write initSlot 100 fun _ => 7, .endOp initSlot, .commit,
    .commit]

theorem log_refines_oneWrite :
    ∃ s a, Lib.runEvents (logStep 2) (homeOnly 2) committedEvents (.boot emptyDisk) = some s ∧
      Lib.run storeStep (Lib.trace (logStep 2) logObs committedEvents (.boot emptyDisk))
          (initStore emptyDisk) = some a ∧
      (s.Up → ∀ b, Home 2 b → (s.buf b).data = a.current b) ∧
      (s.pc = .idle → ∀ b, Home 2 b → s.disk b = a.stable b) := by
  have hrun : (Lib.runEvents (logStep 2) (homeOnly 2) committedEvents
      (.boot emptyDisk)).isSome = true := rfl
  obtain ⟨s, hs⟩ := Option.isSome_iff_exists.mp hrun
  obtain ⟨a, ha⟩ := log_refines (by decide) rfl hs
  exact ⟨s, a, hs, ha⟩

/-- The crash comes before the block is installed, and the write survives. -/
theorem crash_atomic_oneWrite :
    ∃ s n t, Lib.runEvents (logStep 2) (homeOnly 2) committedEvents (.boot emptyDisk) = some s ∧
      s.disk 100 = (fun _ => 0) ∧
      Lib.run (logStep 2) (.crash :: List.replicate n .commit) s = some t ∧
      t.disk 100 = fun _ => 7 := by
  have hrun : (Lib.runEvents (logStep 2) (homeOnly 2) committedEvents
      (.boot emptyDisk)).isSome = true := rfl
  obtain ⟨s, hs⟩ := Option.isSome_iff_exists.mp hrun
  obtain ⟨n, t, u, -, ht, -, hu, -, hdisk⟩ := crash_atomic (by decide) rfl hs
  refine ⟨s, n, t, hs, ?_, ht, ?_⟩
  · rw [← Option.some_get hrun, Option.some.injEq] at hs
    rw [← hs]
    rfl
  · rw [hdisk 100 (by decide)]
    have hkept : Lib.run storeStep (Lib.survivors (Lib.trace (logStep 2) logObs committedEvents
        (.boot emptyDisk))) (initStore emptyDisk) =
          some ⟨emptyDisk, Function.update emptyDisk 100 fun _ => 7, ∅⟩ := by
      rfl
    rw [hkept, Option.some.injEq] at hu
    rw [← hu]
    show Function.update emptyDisk 100 (fun _ => 7) 100 = _
    rw [Function.update_self]

end Runs

end G20OsLab.Kernel
