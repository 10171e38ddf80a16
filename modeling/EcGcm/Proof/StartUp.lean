import EcGcm.Proof.MemRuns
import EcGcm.Proof.MemThreads
import EcGcm.Proof.ReclaimBounds

/-!
# What a start-up thread records, and what it pays

`determine_mem_limit_for_new_pod` has five ways through: the limit fits, the pool is empty, it fits
after a pass over the others, the pod is shrunk to what is left, the shrink is refused. All of them
end in one write that records the limit that was read at first. Two of them have paid that limit.
The two that say "tbh not sure how to handle this" have paid nothing. The shrink has paid it in
full, out of a pool that does not have it: the decrement of the pool clips at zero, and the
allocated total takes the whole amount.

`Manager.ChargesRecorded` says that what is recorded has been paid and that pool and allocated
total still make up the limit. The clip is what decides it: a pool is never negative after a charge,
so both can be true only if the pages were there.
-/

set_option autoImplicit false

namespace EcGcm

open Word Handler

/-! ## A charge -/

section Counters

variable {g : Global.Mem} {d : UInt64} {pool alloc : Int}

theorem unallocated_charged (g : Global.Mem) (d : UInt64) :
    (Manager.charged d g).unallocatedMemoryInPages.toInt =
      max 0 ((g.unallocatedMemoryInPages.toUInt64.toNat - d.toNat : Int).bmod (2 ^ 64)) := by
  -- the difference is formed on unsigned words and read back as signed
  have hdiff : (g.unallocatedMemoryInPages.toUInt64 - d).toInt64.toInt =
      (g.unallocatedMemoryInPages.toUInt64.toNat - d.toNat : Int).bmod (2 ^ 64) := by
    have hamount := amount_eq_bmod (g.unallocatedMemoryInPages.toUInt64 - d)
    unfold amount at hamount
    have := d.toNat_lt
    rw [hamount, UInt64.toNat_sub, Int.bmod_def, Int.bmod_def]
    omega
  unfold Manager.charged
  rw [Global.Mem.unallocated_incrAllocated]
  unfold Global.Mem.decrUnallocatedMemoryInPages
  dsimp only
  split
  · rename_i hneg
    rw [neg_iff_toInt_neg, hdiff] at hneg
    rw [max_eq_left (by omega)]
    rfl
  · rename_i hneg
    rw [neg_iff_toInt_neg, hdiff] at hneg
    rw [max_eq_right (by omega), hdiff]

theorem allocated_charged (g : Global.Mem) (d : UInt64) :
    (Manager.charged d g).allocatedMemoryInPages.toInt =
      (g.allocatedMemoryInPages.toInt + d.toNat).bmod (2 ^ 64) := by
  have hd := amount_eq_bmod d
  unfold amount at hd
  have := d.toNat_lt
  show (g.allocatedMemoryInPages + d.toInt64).toInt = _
  rw [Int64.toInt_add, hd, Int.bmod_def, Int.bmod_def, Int.bmod_def]
  omega

/-- Both counters move by the amount exactly when the pool has it and the counters can hold the
results. `pool` is what the pool counter stands for: a credit may have carried it past `2^63`. -/
theorem charged_exact_iff
    (hpool : (g.unallocatedMemoryInPages.toUInt64.toNat : Int) = pool % 2 ^ 64)
    (hlo : -2 ^ 63 ≤ pool) (hhi : pool < 2 ^ 64)
    (halloc : g.allocatedMemoryInPages.toInt = alloc) (hd : d.toNat < 2 ^ 52) :
    ((Manager.charged d g).unallocatedMemoryInPages.toInt +
        (Manager.charged d g).allocatedMemoryInPages.toInt = pool + alloc ∧
      (Manager.charged d g).allocatedMemoryInPages.toInt = alloc + d.toNat) ↔
      ((d.toNat : Int) ≤ pool ∧ pool - d.toNat < 2 ^ 63 ∧ alloc + d.toNat < 2 ^ 63) := by
  have := g.allocatedMemoryInPages.le_toInt
  have := g.allocatedMemoryInPages.toInt_lt
  rw [unallocated_charged, allocated_charged, hpool, halloc, Int.bmod_def, Int.bmod_def]
  omega

end Counters

namespace Manager

open ElasticContainer

variable {m m' : Manager} {env : Env} {id : ContainerId} {sc : SubContainer} {clifd : Int}
  {pages freed : UInt64}

/-- What the thread takes back from the other pods: it looks for something only when the pool has
some pages, but not enough. -/
def newPodReclaimed (m : Manager) (env : Env) (id : ContainerId) (clifd : Int) : UInt64 :=
  if m.newPodPages env id ≤ m.ec.mem.unallocatedMemoryInPages.toUInt64 ∨
      m.ec.mem.unallocatedMemoryInPages.toUInt64 = 0 then 0
  else ((handleReclaimMemory env clifd).run m).result.getD 0

/-- Pool and allocated total make up the limit, and what the allocated total has gained, apart from
the pages that were taken back, is the limit recorded for the new pod. -/
structure ChargesRecorded (m : Manager) (reclaimed : UInt64) (id : ContainerId) (m' : Manager) :
    Prop where
  balance : m'.ec.mem.Balanced
  recorded : ∃ sc', m'.ec.back? id = some sc' ∧ m'.ec.mem.allocatedMemoryInPages.toInt =
    m.ec.mem.allocatedMemoryInPages.toInt - reclaimed.toNat + sc'.memLimitInPages.toNat

/-- The pool has the pages once `reclaimed` pages are back, and neither counter overflows. -/
def Affords (m : Manager) (reclaimed pages : UInt64) : Prop :=
  (pages.toNat : Int) ≤ m.ec.mem.unallocatedMemoryInPages.toInt + reclaimed.toNat ∧
    m.ec.mem.unallocatedMemoryInPages.toInt + reclaimed.toNat - pages.toNat < 2 ^ 63 ∧
    m.ec.mem.allocatedMemoryInPages.toInt - reclaimed.toNat + pages.toNat < 2 ^ 63

/-- The thread gets as far as a limit: it has a docker id, and cAdvisor answers if it is asked. -/
def ReadsLimit (m : Manager) (env : Env) (id : ContainerId) (sc : SubContainer) : Prop :=
  sc.dockerId ≠ "" ∧ (m.ec.agent? id = none ∨ (env.getContMemLimit id).isSome)

/-- With `reclaimed` pages back the pool has the pages; or it does not have them, and nobody answers
the shrink that the thread asks for. -/
def AffordsOrWaits (m : Manager) (env : Env) (id : ContainerId) (reclaimed pages : UInt64) : Prop :=
  m.Affords reclaimed pages ∨ (env.resizeMemoryLimitPages id = none ∧
    m.ec.mem.unallocatedMemoryInPages.toInt + reclaimed.toNat < pages.toNat)

/-- The limit fits at once, or there is something in the pool and it fits after a pass. -/
def AffordsNewPod (m : Manager) (env : Env) (id : ContainerId) (clifd : Int) : Prop :=
  if ((m.newPodPages env id).toNat : Int) ≤ m.ec.mem.unallocatedMemoryInPages.toInt then
    m.Affords 0 (m.newPodPages env id)
  else
    0 < m.ec.mem.unallocatedMemoryInPages.toInt ∧
      wp (handleReclaimMemory env clifd)
        (fun freed _ => m.AffordsOrWaits env id freed (m.newPodPages env id)) (fun _ _ => True) m

instance : Decidable (m.Affords freed pages) := inferInstanceAs (Decidable (_ ∧ _ ∧ _))

instance : Decidable (m.AffordsOrWaits env id freed pages) :=
  inferInstanceAs (Decidable (_ ∨ _ ∧ _))

instance : Decidable (m.AffordsNewPod env id clifd) :=
  inferInstanceAs (Decidable (if ((m.newPodPages env id).toNat : Int) ≤ _ then _ else _ ∧ _))

/-! ## Recording -/

theorem newPodPages_lt : (m.newPodPages env id).toNat < 2 ^ 52 := by
  have hpage : (4096 : UInt64).toNat = 4096 := rfl
  unfold newPodPages byteToPage
  rw [UInt64.toNat_div, hpage]
  have := (if m.ec.agent? id = none then 0 else (env.getContMemLimit id).getD 0).toNat_lt
  omega

/-- The last write of the thread. -/
def recordLimit (m : Manager) (id : ContainerId) (pages : UInt64) : Manager :=
  { m with ec := m.ec.modifyBack id fun sc => sc.setMemLimitInPages pages }

theorem chargesRecorded_recordLimit {t : Manager} {reclaimed : UInt64}
    (hb : t.ec.back? id = some sc)
    (hlimit : t.ec.mem.memoryLimitInPages = m.ec.mem.memoryLimitInPages)
    (hbal : m.ec.mem.Balanced) :
    ChargesRecorded m reclaimed id (t.recordLimit id pages) ↔
      t.ec.mem.unallocatedMemoryInPages.toInt + t.ec.mem.allocatedMemoryInPages.toInt =
        (m.ec.mem.unallocatedMemoryInPages.toInt + reclaimed.toNat) +
          (m.ec.mem.allocatedMemoryInPages.toInt - reclaimed.toNat) ∧
      t.ec.mem.allocatedMemoryInPages.toInt =
        m.ec.mem.allocatedMemoryInPages.toInt - reclaimed.toNat + pages.toNat := by
  have hback := back?_modifyBack (f := fun sc => sc.setMemLimitInPages pages) hb
  have hmem : (t.recordLimit id pages).ec.mem = t.ec.mem := mem_modifyBack
  unfold Global.Mem.Balanced at hbal
  constructor
  · rintro ⟨hbalance, sc', hb', hrecorded⟩
    obtain rfl := Option.some.inj (hb'.symm.trans hback)
    unfold Global.Mem.Balanced at hbalance
    rw [hmem, hlimit] at hbalance
    rw [hmem] at hrecorded
    exact ⟨by omega, hrecorded⟩
  · rintro ⟨hbalance, hrecorded⟩
    refine ⟨?_, _, hback, ?_⟩
    · unfold Global.Mem.Balanced
      rw [hmem, hlimit]
      omega
    · rw [hmem]
      exact hrecorded

/-- Where the limit is charged, the outcome is right exactly when it was affordable. -/
theorem chargesRecorded_charged_iff {t : Manager} {g : Global.Mem} {reclaimed : UInt64}
    (hb : t.ec.back? id = some sc) (hmem : t.ec.mem = charged pages g)
    (hlimit : g.memoryLimitInPages = m.ec.mem.memoryLimitInPages) (hbal : m.ec.mem.Balanced)
    (hheld : (reclaimed.toNat : Int) ≤ m.ec.mem.allocatedMemoryInPages.toInt)
    (hpool : (g.unallocatedMemoryInPages.toUInt64.toNat : Int) =
      (m.ec.mem.unallocatedMemoryInPages.toInt + reclaimed.toNat) % 2 ^ 64)
    (halloc : g.allocatedMemoryInPages.toInt =
      m.ec.mem.allocatedMemoryInPages.toInt - reclaimed.toNat)
    (hpages : pages.toNat < 2 ^ 52) :
    ChargesRecorded m reclaimed id (t.recordLimit id pages) ↔ m.Affords reclaimed pages := by
  have := m.ec.mem.unallocatedMemoryInPages.le_toInt
  have := m.ec.mem.unallocatedMemoryInPages.toInt_lt
  have := m.ec.mem.allocatedMemoryInPages.toInt_lt
  have hlimit' : t.ec.mem.memoryLimitInPages = m.ec.mem.memoryLimitInPages := by
    rw [hmem]
    exact hlimit
  rw [chargesRecorded_recordLimit hb hlimit' hbal, hmem]
  exact charged_exact_iff hpool (by omega) (by omega) halloc hpages

/-- Where nothing is charged, a limit is recorded that nobody has paid. -/
theorem not_chargesRecorded_unpaid {t : Manager} {reclaimed : UInt64}
    (hb : t.ec.back? id = some sc)
    (halloc : t.ec.mem.allocatedMemoryInPages.toInt =
      m.ec.mem.allocatedMemoryInPages.toInt - reclaimed.toNat)
    (hpages : 0 < pages.toNat) : ¬ ChargesRecorded m reclaimed id (t.recordLimit id pages) := by
  rintro ⟨_, sc', hb', hrecorded⟩
  have hback := back?_modifyBack (f := fun sc => sc.setMemLimitInPages pages) hb
  obtain rfl := Option.some.inj (hb'.symm.trans hback)
  have hmem : (t.recordLimit id pages).ec.mem = t.ec.mem := mem_modifyBack
  rw [hmem, SubContainer.memLimitInPages_setMemLimitInPages] at hrecorded
  omega

/-! ## The counters after the pass -/

theorem pool_credited (g : Global.Mem) (freed : UInt64) :
    ((credited freed g).unallocatedMemoryInPages.toUInt64.toNat : Int) =
      (g.unallocatedMemoryInPages.toInt + freed.toNat) % 2 ^ 64 := by
  have hword := toNat_toUInt64 g.unallocatedMemoryInPages
  unfold credited
  rw [Global.Mem.unallocated_decrAllocated]
  unfold Global.Mem.incrUnallocatedMemoryInPages
  dsimp only
  rw [UInt64.toUInt64_toInt64, UInt64.toNat_add]
  omega

theorem allocated_credited {g : Global.Mem}
    (h : (freed.toNat : Int) ≤ g.allocatedMemoryInPages.toInt) :
    (credited freed g).allocatedMemoryInPages.toInt =
      g.allocatedMemoryInPages.toInt - freed.toNat := by
  unfold credited
  have hdecr := decrAllocated_toInt (g := g.incrUnallocatedMemoryInPages freed) (d := freed) h
  rw [Global.Mem.allocated_incrUnallocated] at hdecr
  exact hdecr

/-- What the thread does once the pass is over. -/
theorem chargesRecorded_after_pass {t : Manager} (hquiet : Quiet m t) (hmem : t.ec.mem = m.ec.mem)
    (hb : m.ec.back? id = some sc) (hagent : m.ec.agent? id ≠ none) (hbal : m.ec.mem.Balanced)
    (hheld : (freed.toNat : Int) ≤ m.ec.mem.allocatedMemoryInPages.toInt)
    (hpool : 0 < m.ec.mem.unallocatedMemoryInPages.toInt) (hpos : 0 < pages.toNat)
    (hpages : pages.toNat < 2 ^ 52) :
    wp (ecUpdateReclaimMemoryInPages freed >>= fun _ => get >>= fun m : Manager =>
      if pages ≤ m.ec.mem.unallocatedMemoryInPages.toUInt64 then ecUpdateAllocMemoryInPages pages
      else scResizeMemoryLimitInPages env id >>= fun notResized =>
        if notResized ≠ 0 then pure ⟨⟩ else ecUpdateAllocMemoryInPages pages)
      (fun _ t' => ChargesRecorded m freed id (t'.recordLimit id pages)) (fun _ _ => True) t ↔
      m.AffordsOrWaits env id freed pages := by
  have hcredit := pool_credited m.ec.mem freed
  have halloc := allocated_credited hheld
  have := m.ec.mem.unallocatedMemoryInPages.toInt_lt
  have := m.ec.mem.allocatedMemoryInPages.toInt_lt
  obtain ⟨sc₁, hb₁, _⟩ := hquiet.back hb
  rw [wp_bind, wp_ecUpdateReclaimMemoryInPages, wp_bind, wp_get, wp_ite]
  dsimp only
  rw [hmem]
  split
  · rename_i hfits
    rw [UInt64.le_iff_toNat_le] at hfits
    have hiff : m.AffordsOrWaits env id freed pages ↔ m.Affords freed pages :=
      ⟨fun h => h.resolve_right fun hwaits => by omega, .inl⟩
    rw [wp_ecUpdateAllocMemoryInPages, hiff]
    exact chargesRecorded_charged_iff hb₁ rfl rfl hbal hheld hcredit halloc hpages
  · -- not enough: the answer to the resize decides whether anything is charged
    rename_i hshort
    rw [UInt64.le_iff_toNat_le] at hshort
    have hless : m.ec.mem.unallocatedMemoryInPages.toInt + freed.toNat < pages.toNat := by omega
    have hnot : ¬ m.Affords freed pages := fun h => by
      have := h.1
      omega
    obtain ⟨agent, hlinked⟩ := Option.ne_none_iff_exists'.mp hagent
    rw [← hquiet.agent] at hlinked
    have hresize : (scResizeMemoryLimitInPages env id).run
        { t with ec := { t.ec with mem := credited freed m.ec.mem } } = _ :=
      run_scResizeMemoryLimitInPages env hlinked
    cases hstatus : env.resizeMemoryLimitPages id with
    | none =>
      rw [hstatus] at hresize
      have hwaits : m.AffordsOrWaits env id freed pages := .inr ⟨hstatus, hless⟩
      refine iff_of_true ?_ hwaits
      unfold wp
      rw [run_bind_of_halt (hresize.trans rfl)]
      trivial
    | some status =>
      rw [hstatus] at hresize
      have hdone : (scResizeMemoryLimitInPages env id).run
          { t with ec := { t.ec with mem := credited freed m.ec.mem } } = .ret status _ :=
        hresize.trans rfl
      have hfails : ¬ m.AffordsOrWaits env id freed pages := by
        rintro (h | ⟨hnone, _⟩)
        · exact hnot h
        · rw [hstatus] at hnone
          cases hnone
      rw [wp_bind, wp_of_run hdone, wp_ite]
      split
      · exact iff_of_false (not_chargesRecorded_unpaid hb₁ halloc hpos) hfails
      · rw [wp_ecUpdateAllocMemoryInPages]
        refine iff_of_false (fun h => hnot (Iff.mp ?_ h)) hfails
        exact chargesRecorded_charged_iff hb₁ rfl rfl hbal hheld hcredit halloc hpages

/-! ## The thread -/

/-- The reading of the limit changes the state only where there is no agent to ask. -/
theorem wp_readLimit (hreads : m.ReadsLimit env id sc) :
    wp (scGetMemoryLimitInBytesCadvisor env id sc.dockerId)
      (fun bytes m₁ => byteToPage bytes = m.newPodPages env id ∧ AgentFrame m m₁ ∧
        (m.newPodPages env id ≠ 0 → m.ec.agent? id ≠ none ∧ m₁ = m))
      (fun _ _ => False) m := by
  obtain ⟨hdocker, hanswer⟩ := hreads
  refine wp_scGetMemoryLimitInBytesCadvisor hdocker (fun m₁ hm hnone => ?_)
    (fun hlinked hlost => ?_) (fun limit hsome hlimit => ?_)
  · have hzero : m.newPodPages env id = byteToPage 0 := by
      unfold newPodPages
      rw [if_pos hnone]
    refine ⟨hzero.symm, hm, fun hpages => absurd ?_ hpages⟩
    rw [hzero]
    rfl
  · have hread := hanswer.resolve_left hlinked
    rw [hlost] at hread
    cases hread
  · refine ⟨?_, .refl m, fun _ => ⟨hsome, rfl⟩⟩
    unfold newPodPages
    rw [if_neg hsome, hlimit]
    rfl

/-- A thread that gets no limit comes to no end. -/
theorem wp_readLimit_of_not (hdocker : sc.dockerId ≠ "") (hreads : ¬ m.ReadsLimit env id sc) :
    wp (scGetMemoryLimitInBytesCadvisor env id sc.dockerId) (fun _ _ => False) (fun _ _ => True)
      m := by
  refine wp_scGetMemoryLimitInBytesCadvisor hdocker (fun m₁ hm hnone => ?_) (fun _ _ => trivial)
    (fun limit hsome hlimit => ?_)
  · exact hreads ⟨hdocker, .inl hnone⟩
  · exact hreads ⟨hdocker, .inr (by rw [hlimit]; rfl)⟩

/-- The limit fits the pool, as the thread sees it. A negative pool looks large. -/
theorem charge_at_once_iff {m₁ : Manager} (hb : m.ec.back? id = some sc) (hm : AgentFrame m m₁)
    (hbal : m.ec.mem.Balanced) (halloc : 0 ≤ m.ec.mem.allocatedMemoryInPages.toInt)
    (hle : m.newPodPages env id ≤ m.ec.mem.unallocatedMemoryInPages.toUInt64) :
    wp (chargeNewPod env id clifd (m.newPodPages env id))
      (fun _ t => ChargesRecorded m 0 id (t.recordLimit id (m.newPodPages env id)))
      (fun _ _ => True) m₁ ↔ m.AffordsNewPod env id clifd := by
  have hword := toNat_toUInt64 m.ec.mem.unallocatedMemoryInPages
  have hzero : ((0 : UInt64).toNat : Int) = 0 := rfl
  have hcharged : wp (chargeNewPod env id clifd (m.newPodPages env id))
      (fun _ t => ChargesRecorded m 0 id (t.recordLimit id (m.newPodPages env id)))
      (fun _ _ => True) m₁ ↔ m.Affords 0 (m.newPodPages env id) := by
    unfold chargeNewPod
    rw [wp_bind, wp_get, wp_ite, hm.mem, if_pos hle, wp_ecUpdateAllocMemoryInPages]
    refine chargesRecorded_charged_iff (g := m₁.ec.mem) ((hm.back? id).trans hb) rfl ?_ hbal halloc
      ?_ ?_ newPodPages_lt
    all_goals rw [hm.mem]
    · rw [hzero, Int.add_zero]
      exact hword
    · rw [hzero, Int.sub_zero]
  rw [hcharged]
  unfold AffordsNewPod
  split
  · exact Iff.rfl
  · rename_i hgt
    -- the pool is negative, and nothing can be paid from it
    have hpages : (m.newPodPages env id).toNat < 2 ^ 52 := newPodPages_lt
    have := m.ec.mem.unallocatedMemoryInPages.toInt_lt
    rw [UInt64.le_iff_toNat_le] at hle
    constructor
    · rintro ⟨hle', _⟩
      omega
    · rintro ⟨hpos, _⟩
      omega

/-- The limit does not fit: the pool is empty, or there is a pass. -/
theorem charge_after_pass_iff (hb : m.ec.back? id = some sc) (hagent : m.ec.agent? id ≠ none)
    (hbal : m.ec.mem.Balanced)
    (hheld : ((m.newPodReclaimed env id clifd).toNat : Int) ≤
      m.ec.mem.allocatedMemoryInPages.toInt)
    (hgt : ¬ m.newPodPages env id ≤ m.ec.mem.unallocatedMemoryInPages.toUInt64) :
    wp (chargeNewPod env id clifd (m.newPodPages env id))
      (fun _ t => ChargesRecorded m (m.newPodReclaimed env id clifd) id
        (t.recordLimit id (m.newPodPages env id)))
      (fun _ _ => True) m ↔ m.AffordsNewPod env id clifd := by
  have hword := toNat_toUInt64 m.ec.mem.unallocatedMemoryInPages
  have hpages : (m.newPodPages env id).toNat < 2 ^ 52 := newPodPages_lt
  have hlt := m.ec.mem.unallocatedMemoryInPages.toInt_lt
  have hlo := m.ec.mem.unallocatedMemoryInPages.le_toInt
  have hshort : m.ec.mem.unallocatedMemoryInPages.toInt < (m.newPodPages env id).toNat := by
    rw [UInt64.le_iff_toNat_le] at hgt
    omega
  unfold chargeNewPod AffordsNewPod
  rw [wp_bind, wp_get, wp_ite, if_neg hgt, if_neg (Int.not_le.mpr hshort)]
  by_cases hempty : m.ec.mem.unallocatedMemoryInPages.toUInt64 = 0
  · -- nothing is paid, and the limit is recorded
    have hreclaimed : m.newPodReclaimed env id clifd = 0 := if_pos (.inr hempty)
    rw [hempty, UInt64.toNat_zero] at hword
    have hunpaid : ¬ ChargesRecorded m 0 id (m.recordLimit id (m.newPodPages env id)) :=
      not_chargesRecorded_unpaid hb (Int.sub_zero _).symm (by omega)
    rw [if_pos hempty, wp_pure, hreclaimed]
    refine ⟨fun h => absurd h hunpaid, fun h => ?_⟩
    have hpos := h.1
    omega
  · have hreclaimed : m.newPodReclaimed env id clifd =
        ((handleReclaimMemory env clifd).run m).result.getD 0 :=
      if_neg fun h => h.elim hgt hempty
    have hpos : 0 < m.ec.mem.unallocatedMemoryInPages.toInt := by
      have hne : m.ec.mem.unallocatedMemoryInPages.toUInt64.toNat ≠ 0 := fun h =>
        hempty (UInt64.toNat_inj.mp h)
      rw [UInt64.le_iff_toNat_le] at hgt
      omega
    have hquiet : Quiet m ((handleReclaimMemory env clifd).run m).state :=
      quiet_mem.handleReclaimMemory m
    have hsame : ((handleReclaimMemory env clifd).run m).state.ec.mem = m.ec.mem :=
      MemThread.sameMem_reclaim.handleReclaimMemory m
    rw [if_neg hempty, wp_bind]
    rw [hreclaimed] at hheld ⊢
    cases hrun : (handleReclaimMemory env clifd).run m with
    | ret freed t =>
      rw [hrun] at hheld hquiet hsame
      rw [wp_of_run hrun, wp_of_run hrun]
      refine (chargesRecorded_after_pass hquiet hsame hb hagent hbal hheld hpos (by omega)
        hpages).trans ?_
      exact ⟨fun h => ⟨hpos, h⟩, fun h => h.2⟩
    | halt e t =>
      unfold wp
      rw [hrun]
      exact ⟨fun _ => ⟨hpos, trivial⟩, fun _ => trivial⟩

/-- **A start-up thread that returns has charged what it records** exactly when the limit it reads
fits the pool at once, or the pool has something and the limit fits after the pass: for every limit,
everything the pass brings back (no more than is allocated), and every answer to the resize. -/
theorem new_pod_charged_iff (hq : m.ec.Queued) (hb : m.ec.back? id = some sc)
    (hbal : m.ec.mem.Balanced)
    (hheld : ((m.newPodReclaimed env id clifd).toNat : Int) ≤
      m.ec.mem.allocatedMemoryInPages.toInt) :
    wp (determineMemLimitForNewPod env id clifd)
      (fun _ => ChargesRecorded m (m.newPodReclaimed env id clifd) id) (fun _ _ => True) m ↔
      (m.ReadsLimit env id sc → m.AffordsNewPod env id clifd) := by
  unfold determineMemLimitForNewPod
  rw [wp_bind, wp_backOf hb, wp_ite, hq.cId_of_back hb]
  split
  · rename_i hnone
    exact ⟨fun _ hreads => absurd hnone hreads.1, fun _ => trivial⟩
  rename_i hdocker
  by_cases hreads : m.ReadsLimit env id sc
  · obtain ⟨bytes, m₁, hrun, hpages, hframe, hsame⟩ := wp_total.mp (wp_readLimit hreads)
    have hrest : wp (chargeNewPod env id clifd (m.newPodPages env id))
        (fun _ t => ChargesRecorded m (m.newPodReclaimed env id clifd) id
          (t.recordLimit id (m.newPodPages env id))) (fun _ _ => True) m₁ ↔
        m.AffordsNewPod env id clifd := by
      by_cases hle : m.newPodPages env id ≤ m.ec.mem.unallocatedMemoryInPages.toUInt64
      · have hreclaimed : m.newPodReclaimed env id clifd = 0 := if_pos (.inl hle)
        rw [hreclaimed] at hheld ⊢
        exact charge_at_once_iff hb hframe hbal hheld hle
      · -- only a limit that was read can be too large, and then the state is still `m`
        have hne : m.newPodPages env id ≠ 0 := by
          intro hzero
          rw [hzero] at hle
          exact hle UInt64.zero_le
        obtain ⟨hagent, rfl⟩ := hsame hne
        exact charge_after_pass_iff hb hagent hbal hheld hle
    rw [wp_bind, wp_of_run hrun, hpages]
    dsimp only
    rw [wp_bind]
    exact hrest.trans ⟨fun h _ => h, fun h => h hreads⟩
  · refine iff_of_true ?_ fun h => absurd h hreads
    rw [wp_bind]
    exact wp_mono_ret (wp_readLimit_of_not hdocker hreads) fun _ _ h => h.elim

/-- The other pods hold what is allocated, so a pass that frees only what was there brings back no
more than that. -/
theorem newPodReclaimed_le (hq : m.ec.Queued)
    (hgives : m.PassGivesHeld env fun sc => sc.fd = clifd)
    (halloc : (m.ec.totalLimit : Int) ≤ m.ec.mem.allocatedMemoryInPages.toInt) :
    ((m.newPodReclaimed env id clifd).toNat : Int) ≤ m.ec.mem.allocatedMemoryInPages.toInt := by
  unfold newPodReclaimed
  split
  · show (0 : Int) ≤ _
    omega
  · have hpass : wp (handleReclaimMemory env clifd)
        (fun freed t => t.ec.totalLimit + freed.toNat ≤ m.ec.totalLimit) (fun _ _ => True) m := by
      refine wp_handleReclaimMemory ?_
      exact wp_mono_ret (wp_reclaimFrom_freed hq hgives) fun _ _ ht => ht.limits
    cases hrun : (handleReclaimMemory env clifd).run m with
    | ret freed t =>
      rw [wp_of_run hrun] at hpass
      show (freed.toNat : Int) ≤ _
      omega
    | halt e t =>
      show (0 : Int) ≤ _
      omega

/-- Container 1 has 20000 of 30208 pages and uses none of them; container 2 has connected. -/
def crowdedRun : List Event :=
  .appSpec sharedApp :: admission 1 "a" 8 20000 ++ [connect 2 9, .podSpec (specOf 2 "b")]

/-- A limit of 12000 pages does not fit the 10208 pages of the pool, and fits with the 7200 pages
that container 1 can spare. -/
theorem new_pod_charged_after_pass :
    ∃ m, gcm.Run (.new oneAgent) m ∧
      m.newPodReclaimed (.uniform 0 0 0 0 49152000) ⟨2, node⟩ 9 = 7200 ∧
      wp (determineMemLimitForNewPod (.uniform 0 0 0 0 49152000) ⟨2, node⟩ 9)
        (fun _ => ChargesRecorded m (m.newPodReclaimed (.uniform 0 0 0 0 49152000) ⟨2, node⟩ 9)
          ⟨2, node⟩) (fun _ _ => True) m := by
  have hreplay : ((gcm.replay crowdedRun (.new oneAgent)).any fun m =>
      (m.ec.back? ⟨2, node⟩).isSome ∧
      m.newPodReclaimed (.uniform 0 0 0 0 49152000) ⟨2, node⟩ 9 = 7200 ∧
      m.ec.mem.Balanced ∧
      (m.PassGivesHeld (.uniform 0 0 0 0 49152000) fun sc => sc.fd = 9) ∧
      (m.ec.totalLimit : Int) ≤ m.ec.mem.allocatedMemoryInPages.toInt ∧
      m.AffordsNewPod (.uniform 0 0 0 0 49152000) ⟨2, node⟩ 9) = true := by
    decide +kernel
  obtain ⟨m, hrun, htest⟩ := System.exists_run_of_replay hreplay
  obtain ⟨hsome, hreclaimed, hbal, hgives, halloc, haffords⟩ := of_decide_eq_true htest
  obtain ⟨sc, hb⟩ := Option.isSome_iff_exists.mp hsome
  have hq := queued_of_run hrun
  exact ⟨m, hrun, hreclaimed, (new_pod_charged_iff hq hb hbal
    (newPodReclaimed_le hq hgives halloc)).mpr fun _ => haffords⟩

/-- A limit of 20000 pages does not fit after the pass either. The pod is shrunk to the 17408 pages
that are left, and 20000 are charged and recorded: the allocated total is above the limit of the
application. -/
theorem shrunk_pod_overcharged :
    ∃ m, gcm.Run (.new oneAgent) m ∧
      m.ec.mem.Balanced ∧
      ((m.newPodReclaimed (.uniform 0 0 0 0 81920000) ⟨2, node⟩ 9).toNat : Int) ≤
        m.ec.mem.allocatedMemoryInPages.toInt ∧
      wp (determineMemLimitForNewPod (.uniform 0 0 0 0 81920000) ⟨2, node⟩ 9) (fun _ m' =>
        m'.ec.mem.unallocatedMemoryInPages = 0 ∧ m'.ec.mem.allocatedMemoryInPages = 32800 ∧
        m'.ec.mem.memoryLimitInPages = 30208 ∧
        (m'.ec.back? ⟨2, node⟩).map (·.memLimitInPages) = some 20000 ∧
        ¬ ChargesRecorded m (m.newPodReclaimed (.uniform 0 0 0 0 81920000) ⟨2, node⟩ 9)
          ⟨2, node⟩ m') (fun _ _ => False) m := by
  have hreplay : ((gcm.replay crowdedRun (.new oneAgent)).any fun m =>
      m.ec.mem.Balanced ∧
      ((m.newPodReclaimed (.uniform 0 0 0 0 81920000) ⟨2, node⟩ 9).toNat : Int) ≤
        m.ec.mem.allocatedMemoryInPages.toInt ∧
      wp (determineMemLimitForNewPod (.uniform 0 0 0 0 81920000) ⟨2, node⟩ 9) (fun _ m' =>
        m'.ec.mem.unallocatedMemoryInPages = 0 ∧ m'.ec.mem.allocatedMemoryInPages = 32800 ∧
        m'.ec.mem.memoryLimitInPages = 30208 ∧
        (m'.ec.back? ⟨2, node⟩).map (·.memLimitInPages) = some 20000)
        (fun _ _ => False) m) = true := by
    decide +kernel
  obtain ⟨m, hrun, htest⟩ := System.exists_run_of_replay hreplay
  obtain ⟨hbal, hheld, hafter⟩ := of_decide_eq_true htest
  refine ⟨m, hrun, hbal, hheld, wp_mono hafter (fun _ m' h => ?_) (fun _ _ h => h)⟩
  obtain ⟨hpool, halloc, hlimit, hrecorded⟩ := h
  refine ⟨hpool, halloc, hlimit, hrecorded, fun hcharges => ?_⟩
  have hbalance := hcharges.balance
  unfold Global.Mem.Balanced at hbalance
  rw [hpool, halloc, hlimit] at hbalance
  revert hbalance
  decide

end Manager

end EcGcm
