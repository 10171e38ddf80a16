import EcGcm.Lib.Heap
import EcGcm.Proof.Fifo

/-!
# Instances behind raw pointers

The queues of `subcontainers` hold `SubContainer*`, and whoever works on a container keeps such a
pointer for a while: a report, a reclaim task, and the thread that waits until a new pod has its
docker id. `ec_delete_from_subcontainers_map` releases the oldest instance of an id, unless it is
the only one. Then the queue is deleted, but not what it points to. Nobody asks who still holds a
pointer.

Everywhere else in this model the map holds the instances themselves.

* `accounted_of_run`: where all instances are. Those of the last deletion of an id stay behind.
* `safe_of_run`: only a container that connects again while it is registered can ever be accessed
  after its release.
* `stranded`: the thread of a pod that connects again before it has its docker id waits in vain.
-/

set_option autoImplicit false

namespace EcGcm

open UnorderedMap

/-- What is done through a pointer that is kept: neither id is ever changed. -/
structure Write where
  f : SubContainer → SubContainer
  cId : ∀ sc, (f sc).cId = sc.cId
  dockerId : ∀ sc, (f sc).dockerId = sc.dockerId

inductive HolderPoint
  /-- `while(sc->get_docker_id().empty())`. -/
  | waiting
  | working
  | gone
  deriving DecidableEq

/-- A thread that has a pointer to an instance. -/
structure Holder where
  pointer : ℕ
  point : HolderPoint
  deriving DecidableEq

/-- The elastic container as it is kept, with all who hold pointers. -/
structure RawContainer where
  heap : Heap SubContainer
  subcontainers : UnorderedMap ContainerId (List ℕ)
  holders : List Holder
  /-- How many instances a deletion has dropped without a release. -/
  leaked : ℕ

namespace RawContainer

def start : RawContainer := ⟨.empty, ∅, [], 0⟩

/-- `get_sc_for_update_back`. -/
def back? (s : RawContainer) (id : ContainerId) : Option ℕ :=
  (s.subcontainers.lookup id).bind List.getLast?

/-- `handle_add_cgroup_to_ec`: `create_new_sc`, `insert_sc`, and the thread that starts out with a
wait for the docker id. -/
def insertSc (s : RawContainer) (sc : SubContainer) : RawContainer :=
  { s with
    heap := s.heap.alloc sc
    subcontainers := s.subcontainers.insert sc.cId
      ((s.subcontainers.lookup sc.cId).getD [] ++ [s.heap.fresh])
    holders := s.holders ++ [⟨s.heap.fresh, .waiting⟩] }

/-- `ec_delete_from_subcontainers_map`. -/
def delete (s : RawContainer) (id : ContainerId) : RawContainer :=
  match s.subcontainers.lookup id with
  | some (front :: next :: rest) =>
    { s with
      heap := s.heap.release front
      subcontainers := s.subcontainers.insert id (next :: rest) }
  | some _ => { s with subcontainers := s.subcontainers.erase id, leaked := s.leaked + 1 }
  | none => s

inductive Event
  | insertSc (sc : SubContainer)
  | delete (id : ContainerId)
  /-- The matcher, which does not keep the pointer. -/
  | setDockerId (id : ContainerId) (dockerId : String)
  /-- A handler takes the pointer to the newest instance. -/
  | hold (id : ContainerId)
  /-- Holder `i` looks whether there is a docker id. -/
  | poll (i : ℕ)
  | access (i : ℕ) (w : Write)
  | leave (i : ℕ)

/-- A key that is not there ends the process, at other places of the model. -/
def enabled (s : RawContainer) : Event → Prop
  | .insertSc sc => sc.dockerId = ""
  | .delete _ => True
  | .setDockerId id _ => (s.back? id).isSome = true
  | .hold id => (s.back? id).isSome = true
  | .poll i => ∃ h ∈ s.holders[i]?, h.point = .waiting
  | .access i _ => ∃ h ∈ s.holders[i]?, h.point = .working
  | .leave i => ∃ h ∈ s.holders[i]?, h.point = .working

instance (s : RawContainer) : (e : Event) → Decidable (enabled s e)
  | .insertSc _ => inferInstanceAs (Decidable (_ = _))
  | .delete _ => .isTrue trivial
  | .setDockerId .. => inferInstanceAs (Decidable (_ = _))
  | .hold _ => inferInstanceAs (Decidable (_ = _))
  | .poll _ => inferInstanceAs (Decidable (∃ h ∈ _, _))
  | .access .. => inferInstanceAs (Decidable (∃ h ∈ _, _))
  | .leave _ => inferInstanceAs (Decidable (∃ h ∈ _, _))

/-- An access to a released instance has no next state. -/
def step : Event → RawContainer → Option RawContainer
  | .insertSc sc, s => some (s.insertSc sc)
  | .delete id, s => some (s.delete id)
  | .setDockerId id dockerId, s => do
    let p ← s.back? id
    let _ ← s.heap.read p
    pure { s with heap := s.heap.write p fun sc => sc.setDockerId dockerId }
  | .hold id, s => do
    let p ← s.back? id
    pure { s with holders := s.holders ++ [⟨p, .working⟩] }
  | .poll i, s => do
    let h ← s.holders[i]?
    let sc ← s.heap.read h.pointer
    pure (if sc.dockerId = "" then s
      else { s with holders := s.holders.set i { h with point := .working } })
  | .access i w, s => do
    let h ← s.holders[i]?
    let _ ← s.heap.read h.pointer
    pure { s with heap := s.heap.write h.pointer w.f }
  | .leave i, s => do
    let h ← s.holders[i]?
    pure { s with holders := s.holders.set i { h with point := .gone } }

/-- Any number of threads, in any order. -/
def system : System RawContainer Event := ⟨enabled, step⟩

instance (s : RawContainer) (e : Event) : Decidable (system.enabled s e) :=
  inferInstanceAs (Decidable (enabled s e))

variable {s s' : RawContainer} {e : Event} {i p : ℕ} {id : ContainerId} {sc : SubContainer}
  {q : List ℕ}

/-! ## What the steps do -/

theorem lookup_insertSc : (s.insertSc sc).subcontainers.lookup id =
    if id = sc.cId then some ((s.subcontainers.lookup sc.cId).getD [] ++ [s.heap.fresh])
    else s.subcontainers.lookup id := by
  unfold insertSc
  dsimp only
  rw [lookup_insert']

theorem fresh_insertSc : (s.insertSc sc).heap.fresh = s.heap.fresh + 1 := Heap.fresh_alloc

/-- A deletion of an id that is there. -/
theorem delete_cases (hq : s.subcontainers.lookup id = some q) :
    (∃ front next rest, q = front :: next :: rest ∧ s.delete id =
      { s with
        heap := s.heap.release front
        subcontainers := s.subcontainers.insert id (next :: rest) }) ∨
    q.length ≤ 1 ∧ s.delete id =
      { s with subcontainers := s.subcontainers.erase id, leaked := s.leaked + 1 } := by
  unfold delete
  rw [hq]
  match q with
  | [] => exact .inr ⟨by simp, rfl⟩
  | [_] => exact .inr ⟨by simp, rfl⟩
  | front :: next :: rest => exact .inl ⟨front, next, rest, rfl, rfl⟩

theorem delete_of_none (hq : s.subcontainers.lookup id = none) : s.delete id = s := by
  unfold delete
  rw [hq]

theorem exists_queue_of_back (hb : s.back? id = some p) :
    ∃ l, s.subcontainers.lookup id = some (l ++ [p]) := by
  obtain ⟨q, hq, hlast⟩ := Option.bind_eq_some_iff.mp hb
  obtain ⟨l, rfl⟩ := List.getLast?_eq_some_iff.mp hlast
  exact ⟨l, hq⟩

/-- What a step does, the two that change queues apart: a write through a pointer to an object that
is there, or a change of who holds what. -/
inductive Touches (s : RawContainer) : RawContainer → Prop
  | write {p : ℕ} {sc : SubContainer} {f : SubContainer → SubContainer}
      (hread : s.heap.read p = some sc) (hf : ∀ sc, (f sc).cId = sc.cId) :
      Touches s { s with heap := s.heap.write p f }
  | holders {holders : List Holder}
      (hheld : ∀ h ∈ holders, (∃ h' ∈ s.holders, h'.pointer = h.pointer) ∨
        ∃ id, s.back? id = some h.pointer) :
      Touches s { s with holders := holders }

theorem step_cases (hnext : system.next e s = some s') :
    (∃ sc, e = .insertSc sc ∧ s' = s.insertSc sc) ∨ (∃ id, e = .delete id ∧ s' = s.delete id) ∨
      Touches s s' := by
  have hset : ∀ {i : ℕ} {h : Holder} {point : HolderPoint}, s.holders[i]? = some h →
      ∀ h' ∈ s.holders.set i { h with point := point },
        (∃ h₀ ∈ s.holders, h₀.pointer = h'.pointer) ∨ ∃ id, s.back? id = some h'.pointer := by
    intro i h point hi h' hh'
    rcases List.mem_or_eq_of_mem_set hh' with hold | rfl
    · exact .inl ⟨h', hold, rfl⟩
    · exact .inl ⟨h, List.mem_of_getElem? hi, rfl⟩
  cases e with
  | insertSc sc =>
    cases hnext
    exact .inl ⟨sc, rfl, rfl⟩
  | delete id =>
    cases hnext
    exact .inr (.inl ⟨id, rfl, rfl⟩)
  | setDockerId id dockerId =>
    obtain ⟨p, -, hrest⟩ := Option.bind_eq_some_iff.mp hnext
    obtain ⟨sc, hread, hpure⟩ := Option.bind_eq_some_iff.mp hrest
    cases hpure
    exact .inr (.inr (.write hread fun _ => rfl))
  | hold id =>
    obtain ⟨p, hb, hpure⟩ := Option.bind_eq_some_iff.mp hnext
    cases hpure
    refine .inr (.inr (.holders fun h hh => ?_))
    rcases List.mem_append.mp hh with hold | hnew
    · exact .inl ⟨h, hold, rfl⟩
    · rw [List.mem_singleton.mp hnew]
      exact .inr ⟨id, hb⟩
  | poll i =>
    obtain ⟨h, hi, hrest⟩ := Option.bind_eq_some_iff.mp hnext
    obtain ⟨sc, -, hpure⟩ := Option.bind_eq_some_iff.mp hrest
    cases hpure
    split
    · exact .inr (.inr (.holders fun h hh => .inl ⟨h, hh, rfl⟩))
    · exact .inr (.inr (.holders (hset hi)))
  | access i w =>
    obtain ⟨h, -, hrest⟩ := Option.bind_eq_some_iff.mp hnext
    obtain ⟨sc, hread, hpure⟩ := Option.bind_eq_some_iff.mp hrest
    cases hpure
    exact .inr (.inr (.write hread w.cId))
  | leave i =>
    obtain ⟨h, hi, hpure⟩ := Option.bind_eq_some_iff.mp hnext
    cases hpure
    exact .inr (.inr (.holders (hset hi)))

/-! ## Good pointers -/

/-- All queued pointers. -/
def queued (s : RawContainer) : ℕ := total List.length s.subcontainers

/-- A queue is in the order of admission, and its pointers are good. -/
structure GoodQueue (h : Heap SubContainer) (id : ContainerId) (q : List ℕ) : Prop where
  nonempty : q ≠ []
  ordered : q.Pairwise (· < ·)
  good : ∀ p ∈ q, ∃ sc, h.read p = some sc ∧ sc.cId = id

/-- There is an instance of the same container that was admitted after `p`. -/
def Newer (h : Heap SubContainer) (p : ℕ) : Prop :=
  ∃ p' sc sc', h.last p = some sc ∧ p < p' ∧ h.last p' = some sc' ∧ sc'.cId = sc.cId

structure Sound (s : RawContainer) : Prop where
  queues : ∀ id q, s.subcontainers.lookup id = some q → GoodQueue s.heap id q
  released : ∀ p < s.heap.fresh, s.heap.read p = none → Newer s.heap p
  held : ∀ h ∈ s.holders, h.pointer < s.heap.fresh
  accounted : s.heap.fresh = s.queued + s.heap.releases + s.leaked

theorem sound_start : Sound start where
  queues _ _ hq := by cases hq
  released p hp := absurd hp (Nat.not_lt_zero p)
  held _ hh := by cases hh
  accounted := rfl

variable {h h' : Heap SubContainer} {sc₀ : SubContainer} {f : SubContainer → SubContainer}

theorem GoodQueue.lt_fresh (hq : GoodQueue h id q) (hp : p ∈ q) : p < h.fresh := by
  obtain ⟨sc, hread, -⟩ := hq.good p hp
  exact Heap.lt_fresh_of_read hread

theorem GoodQueue.alloc (hq : GoodQueue h id q) : GoodQueue (h.alloc sc) id q := by
  refine ⟨hq.nonempty, hq.ordered, fun p hp => ?_⟩
  rw [Heap.read_alloc, if_neg (hq.lt_fresh hp).ne]
  exact hq.good p hp

theorem GoodQueue.write (hq : GoodQueue h id q) (hf : ∀ sc, (f sc).cId = sc.cId) :
    GoodQueue (h.write p f) id q := by
  refine ⟨hq.nonempty, hq.ordered, fun p' hp' => ?_⟩
  obtain ⟨sc, hread, hid⟩ := hq.good p' hp'
  rw [Heap.read_write, hread]
  split
  · exact ⟨f sc, rfl, (hf sc).trans hid⟩
  · exact ⟨sc, rfl, hid⟩

theorem GoodQueue.release (hq : GoodQueue h id q) (hp : p ∉ q) : GoodQueue (h.release p) id q := by
  refine ⟨hq.nonempty, hq.ordered, fun p' hp' => ?_⟩
  have hne : p' ≠ p := by
    rintro rfl
    exact hp hp'
  rw [Heap.read_release, if_neg hne]
  exact hq.good p' hp'

/-- An object is in the queue of its own id only. -/
theorem GoodQueue.notMem {id' : ContainerId} {q' : List ℕ} (hq : GoodQueue h id q)
    (hq' : GoodQueue h id' q') (hne : id' ≠ id) (hp : p ∈ q) : p ∉ q' := by
  intro hp'
  obtain ⟨sc, hread, hid⟩ := hq.good p hp
  obtain ⟨sc', hread', hid'⟩ := hq'.good p hp'
  rw [hread] at hread'
  cases hread'
  exact hne (hid'.symm.trans hid)

theorem Newer.alloc (hn : Newer h p) : Newer (h.alloc sc) p := by
  obtain ⟨p', sc₁, sc₂, hlast, hlt, hlast', hid⟩ := hn
  refine ⟨p', sc₁, sc₂, ?_, hlt, ?_, hid⟩
  · rw [Heap.last_alloc, if_neg (Heap.lt_fresh_of_last hlast).ne]
    exact hlast
  · rw [Heap.last_alloc, if_neg (Heap.lt_fresh_of_last hlast').ne]
    exact hlast'

theorem exists_last_write {p' : ℕ} (hlast : h.last p' = some sc₀) (hf : ∀ sc, (f sc).cId = sc.cId) :
    ∃ sc', (h.write p f).last p' = some sc' ∧ sc'.cId = sc₀.cId := by
  rw [Heap.last_write, hlast]
  split
  · exact ⟨f sc₀, rfl, hf sc₀⟩
  · exact ⟨sc₀, rfl, rfl⟩

theorem Newer.write {p' : ℕ} (hn : Newer h p') (hf : ∀ sc, (f sc).cId = sc.cId) :
    Newer (h.write p f) p' := by
  obtain ⟨p'', sc₁, sc₂, hlast, hlt, hlast', hid⟩ := hn
  obtain ⟨sc₁', hl, h₁⟩ := exists_last_write (p := p) hlast hf
  obtain ⟨sc₂', hl', h₂⟩ := exists_last_write (p := p) hlast' hf
  exact ⟨p'', sc₁', sc₂', hl, hlt, hl', by rw [h₁, h₂, hid]⟩

theorem Newer.release {p' : ℕ} (hn : Newer h p') : Newer (h.release p) p' := by
  unfold Newer
  simp only [Heap.last_release]
  exact hn

theorem Sound.pointer_lt (hs : Sound s) (hb : s.back? id = some p) : p < s.heap.fresh := by
  obtain ⟨l, hq⟩ := exists_queue_of_back hb
  exact (hs.queues id _ hq).lt_fresh (by simp)

/-! ### The step lemma -/

theorem queued_insertSc : (s.insertSc sc).queued = s.queued + 1 := by
  unfold queued insertSc
  dsimp only
  cases hq : s.subcontainers.lookup sc.cId with
  | none =>
    rw [Option.getD_none, total_insert_of_lookup_none hq]
    simp [Nat.add_comm]
  | some q =>
    have htotal := total_insert_of_lookup (f := List.length) (w := q ++ [s.heap.fresh]) hq
    rw [Option.getD_some]
    simp at htotal ⊢
    omega

theorem Sound.insertSc (hs : Sound s) (sc : SubContainer) : Sound (s.insertSc sc) where
  queues id q hq := by
    rw [lookup_insertSc] at hq
    split at hq
    · rename_i heq
      cases hq
      have hnew : (s.heap.alloc sc).read s.heap.fresh = some sc := by
        rw [Heap.read_alloc, if_pos rfl]
      cases hlook : s.subcontainers.lookup sc.cId with
      | none => exact ⟨by simp, by simp, by simp [RawContainer.insertSc, hnew, heq]⟩
      | some q₀ =>
        have hgood := hs.queues _ _ hlook
        refine ⟨by simp, ?_, ?_⟩
        · simp only [Option.getD_some, List.pairwise_append, List.pairwise_singleton,
            List.mem_singleton, forall_eq, true_and]
          exact ⟨hgood.ordered, fun p hp => hgood.lt_fresh hp⟩
        · intro p hp
          rcases List.mem_append.mp hp with hold | hlast
          · have halloc : GoodQueue (s.heap.alloc sc) sc.cId q₀ := hgood.alloc
            obtain ⟨sc', hread, hid⟩ := halloc.good p hold
            exact ⟨sc', hread, hid.trans heq.symm⟩
          · rw [List.mem_singleton.mp hlast]
            exact ⟨sc, hnew, heq.symm⟩
    · exact (hs.queues id q hq).alloc
  released p hp hnone := by
    have hread : (s.heap.alloc sc).read p = none := hnone
    rw [Heap.read_alloc] at hread
    split at hread
    · cases hread
    · rename_i hne
      have hlt : p < (s.heap.alloc sc).fresh := hp
      rw [Heap.fresh_alloc] at hlt
      exact (hs.released p (by omega) hread).alloc
  held holder hholder := by
    rw [fresh_insertSc]
    rcases List.mem_append.mp hholder with hold | hnew
    · exact Nat.lt_succ_of_lt (hs.held holder hold)
    · rw [List.mem_singleton.mp hnew]
      exact Nat.lt_succ_self _
  accounted := by
    have hreleases : (s.insertSc sc).heap.releases = s.heap.releases := Heap.releases_alloc
    have hleaked : (s.insertSc sc).leaked = s.leaked := rfl
    have hbefore := hs.accounted
    rw [fresh_insertSc, hreleases, hleaked, queued_insertSc]
    omega

/-- The oldest instance goes, and the next one is the newer. -/
theorem Sound.delete_front {front next : ℕ} {rest : List ℕ} (hs : Sound s)
    (hq : s.subcontainers.lookup id = some (front :: next :: rest)) :
    Sound
      { s with
        heap := s.heap.release front
        subcontainers := s.subcontainers.insert id (next :: rest) } := by
  have hgood := hs.queues _ _ hq
  obtain ⟨hbelow, hordered⟩ := List.pairwise_cons.mp hgood.ordered
  have hnotMem : front ∉ next :: rest := fun hmem => (hbelow front hmem).ne rfl
  obtain ⟨sc, hread, hid⟩ := hgood.good front (by simp)
  obtain ⟨sc', hread', hid'⟩ := hgood.good next (by simp)
  refine ⟨fun id' q' hq' => ?_, fun p hp hnone => ?_, fun holder hholder => ?_, ?_⟩
  · dsimp only at hq' ⊢
    rw [lookup_insert'] at hq'
    split at hq'
    · rename_i heq
      cases hq'
      subst heq
      have htail : GoodQueue s.heap id' (next :: rest) :=
        ⟨by simp, hordered, fun p hp => hgood.good p (List.mem_cons_of_mem _ hp)⟩
      exact htail.release hnotMem
    · rename_i hne
      exact (hs.queues _ _ hq').release (hgood.notMem (hs.queues _ _ hq') hne (by simp))
  · dsimp only at hp hnone ⊢
    rw [Heap.fresh_release] at hp
    rw [Heap.read_release] at hnone
    split at hnone
    · rename_i heq
      subst heq
      refine Newer.release ⟨next, sc, sc', Heap.last_of_read hread, hbelow next (by simp),
        Heap.last_of_read hread', hid'.trans hid.symm⟩
    · exact (hs.released p hp hnone).release
  · dsimp only
    rw [Heap.fresh_release]
    exact hs.held holder hholder
  · have htotal := total_insert_of_lookup (f := List.length) (w := next :: rest) hq
    have hbefore := hs.accounted
    have hreleases := Heap.releases_release hread
    unfold queued at hbefore ⊢
    dsimp only
    rw [Heap.fresh_release, hreleases]
    simp only [List.length_cons] at htotal
    omega

theorem Sound.delete (hs : Sound s) (id : ContainerId) : Sound (s.delete id) := by
  cases hq : s.subcontainers.lookup id with
  | none =>
    rw [delete_of_none hq]
    exact hs
  | some q =>
    rcases delete_cases hq with ⟨front, next, rest, rfl, hdelete⟩ | ⟨hlen, hdelete⟩
    · rw [hdelete]
      exact hs.delete_front hq
    · rw [hdelete]
      refine ⟨fun id' q' hq' => ?_, hs.released, hs.held, ?_⟩
      · dsimp only at hq'
        rw [lookup_erase'] at hq'
        split at hq'
        · cases hq'
        · exact hs.queues id' q' hq'
      · have hpos := List.length_pos_of_ne_nil (hs.queues _ _ hq).nonempty
        have htotal := total_erase_of_lookup (f := List.length) hq
        have hbefore := hs.accounted
        unfold queued at hbefore ⊢
        dsimp only
        omega

theorem Sound.touches (hs : Sound s) (ht : Touches s s') : Sound s' := by
  cases ht with
  | write hread hf =>
    refine ⟨fun id q hq => (hs.queues id q hq).write hf, fun p hp hnone => ?_,
      fun holder hholder => ?_, ?_⟩
    · dsimp only at hp hnone ⊢
      rw [Heap.fresh_write] at hp
      rw [Heap.read_write] at hnone
      have hbefore : s.heap.read p = none := by
        split at hnone
        · exact Option.map_eq_none_iff.mp hnone
        · exact hnone
      exact (hs.released p hp hbefore).write hf
    · dsimp only
      rw [Heap.fresh_write]
      exact hs.held holder hholder
    · have hbefore := hs.accounted
      unfold queued at hbefore ⊢
      dsimp only
      rw [Heap.fresh_write, Heap.releases_write]
      exact hbefore
  | holders hheld =>
    refine ⟨hs.queues, hs.released, fun holder hholder => ?_, hs.accounted⟩
    rcases hheld holder hholder with ⟨holder', hmem, heq⟩ | ⟨id, hb⟩
    · rw [← heq]
      exact hs.held holder' hmem
    · exact hs.pointer_lt hb

theorem Sound.next (hs : Sound s) (hnext : system.next e s = some s') : Sound s' := by
  rcases step_cases hnext with ⟨sc, -, rfl⟩ | ⟨id, -, rfl⟩ | htouches
  · exact hs.insertSc sc
  · exact hs.delete id
  · exact hs.touches htouches

theorem sound_of_run (hrun : system.Run start s) : Sound s :=
  System.invariant sound_start (fun _ _ _ hs _ hnext => hs.next hnext) hrun

/-- **The queues hold good pointers only, and every instance that was ever admitted is in a queue,
has been released, or was left behind by the last deletion of its id.** -/
theorem accounted_of_run (hrun : system.Run start s) :
    (∀ id q, s.subcontainers.lookup id = some q → ∀ p ∈ q,
      ∃ sc, s.heap.read p = some sc ∧ sc.cId = id) ∧
    s.heap.fresh = s.queued + s.heap.releases + s.leaked :=
  ⟨fun id q hq => ((sound_of_run hrun).queues id q hq).good, (sound_of_run hrun).accounted⟩

/-- Container 1 connects twice, container 2 once; each is deleted. -/
def threeConnections : List Event :=
  [.insertSc (.new 1 0 8 0 0 0), .insertSc (.new 1 0 9 0 0 0), .insertSc (.new 2 0 10 0 0 0),
    .delete ⟨1, ⟨0⟩⟩, .delete ⟨2, ⟨0⟩⟩]

theorem accounted_after_three_connections :
    ∃ s, system.Run start s ∧ s.queued = 1 ∧ s.heap.releases = 1 ∧ s.leaked = 1 ∧
      s.heap.fresh = s.queued + s.heap.releases + s.leaked := by
  have hreplay : ((system.replay threeConnections start).any fun s =>
      decide (s.queued = 1 ∧ s.heap.releases = 1 ∧ s.leaked = 1)) = true := by
    decide +kernel
  obtain ⟨s, hrun, htest⟩ := System.exists_run_of_replay hreplay
  obtain ⟨hqueued, hreleases, hleaked⟩ := of_decide_eq_true htest
  exact ⟨s, hrun, hqueued, hreleases, hleaked, (accounted_of_run hrun).2⟩

/-! ## Who is accessed after the release -/

/-- A step that is possible and has no next state accesses an instance that has been released. -/
theorem released_of_undef (hs : Sound s) (hen : system.enabled s e)
    (hnone : system.next e s = none) :
    ∃ h ∈ s.holders, s.heap.read h.pointer = none := by
  have hback : ∀ id, (s.back? id).isSome = true → ∃ p, s.back? id = some p ∧
      ∃ sc, s.heap.read p = some sc := by
    intro id hb
    obtain ⟨p, hp⟩ := Option.isSome_iff_exists.mp hb
    obtain ⟨l, hq⟩ := exists_queue_of_back hp
    obtain ⟨sc, hread, -⟩ := (hs.queues id _ hq).good p (by simp)
    exact ⟨p, hp, sc, hread⟩
  cases e with
  | insertSc sc => cases hnone
  | delete id => cases hnone
  | setDockerId id dockerId =>
    obtain ⟨p, hp, sc, hread⟩ := hback id hen
    simp [system, step, hp, hread] at hnone
  | hold id =>
    obtain ⟨p, hp, -⟩ := hback id hen
    simp [system, step, hp] at hnone
  | poll i =>
    obtain ⟨h, hi, -⟩ := hen
    refine ⟨h, List.mem_of_getElem? hi, ?_⟩
    cases hread : s.heap.read h.pointer with
    | none => rfl
    | some sc => simp [system, step, Option.mem_def.mp hi, hread] at hnone
  | access i w =>
    obtain ⟨h, hi, -⟩ := hen
    refine ⟨h, List.mem_of_getElem? hi, ?_⟩
    cases hread : s.heap.read h.pointer with
    | none => rfl
    | some sc => simp [system, step, Option.mem_def.mp hi, hread] at hnone
  | leave i =>
    obtain ⟨h, hi, -⟩ := hen
    simp [system, step, Option.mem_def.mp hi] at hnone

/-- A container connects for the first time. -/
def FirstConnection (s : RawContainer) : Event → Prop
  | .insertSc sc => ∀ p < s.heap.fresh, ∀ sc' ∈ s.heap.last p, sc'.cId ≠ sc.cId
  | _ => True

instance (s : RawContainer) : (e : Event) → Decidable (FirstConnection s e)
  | .insertSc _ => inferInstanceAs (Decidable (∀ p < _, ∀ sc' ∈ _, _))
  | .delete _ => .isTrue trivial
  | .setDockerId .. => .isTrue trivial
  | .hold _ => .isTrue trivial
  | .poll _ => .isTrue trivial
  | .access .. => .isTrue trivial
  | .leave _ => .isTrue trivial

/-- No id has two instances. -/
def Distinct (h : Heap SubContainer) : Prop :=
  ∀ p p' sc sc', h.last p = some sc → h.last p' = some sc' → sc'.cId = sc.cId → p' = p

theorem Distinct.write (hd : Distinct h) (hf : ∀ sc, (f sc).cId = sc.cId) :
    Distinct (h.write p f) := by
  have hid : ∀ p' sc, (h.write p f).last p' = some sc →
      ∃ sc₀, h.last p' = some sc₀ ∧ sc.cId = sc₀.cId := by
    intro p' sc hlast
    rw [Heap.last_write] at hlast
    split at hlast
    · obtain ⟨sc₀, h₀, rfl⟩ := Option.map_eq_some_iff.mp hlast
      exact ⟨sc₀, h₀, hf sc₀⟩
    · exact ⟨sc, hlast, rfl⟩
  intro p₁ p₂ sc₁ sc₂ h₁ h₂ heq
  obtain ⟨sc₁', h₁', hid₁⟩ := hid p₁ sc₁ h₁
  obtain ⟨sc₂', h₂', hid₂⟩ := hid p₂ sc₂ h₂
  exact hd p₁ p₂ sc₁' sc₂' h₁' h₂' (by rw [← hid₁, ← hid₂, heq])

theorem Distinct.alloc (hd : Distinct h)
    (hnew : ∀ p < h.fresh, ∀ sc' ∈ h.last p, sc'.cId ≠ sc.cId) : Distinct (h.alloc sc) := by
  intro p₁ p₂ sc₁ sc₂ h₁ h₂ heq
  rw [Heap.last_alloc] at h₁ h₂
  split at h₁
  · rename_i hp₁
    split at h₂
    · rename_i hp₂
      exact hp₂.trans hp₁.symm
    · cases h₁
      exact absurd heq (hnew p₂ (Heap.lt_fresh_of_last h₂) sc₂ h₂)
  · split at h₂
    · cases h₂
      exact absurd heq.symm (hnew p₁ (Heap.lt_fresh_of_last h₁) sc₁ h₁)
    · exact hd p₁ p₂ sc₁ sc₂ h₁ h₂ heq

theorem distinct_delete (hd : Distinct s.heap) (id : ContainerId) :
    Distinct (s.delete id).heap := by
  cases hq : s.subcontainers.lookup id with
  | none =>
    rw [delete_of_none hq]
    exact hd
  | some q =>
    rcases delete_cases hq with ⟨front, next, rest, -, hdelete⟩ | ⟨-, hdelete⟩
    · rw [hdelete]
      unfold Distinct
      simp only [Heap.last_release]
      exact hd
    · rw [hdelete]
      exact hd

theorem distinct_of_run (hrun : (system.only FirstConnection).Run start s) : Distinct s.heap := by
  refine System.invariant (I := fun s => Distinct s.heap) (fun p p' sc sc' hl => by cases hl)
    (fun e t t' hd hen hnext => ?_) hrun
  rcases step_cases hnext with ⟨sc, rfl, rfl⟩ | ⟨id, -, rfl⟩ | htouches
  · exact hd.alloc hen.2
  · exact distinct_delete hd id
  · cases htouches with
    | write hread hf => exact hd.write hf
    | holders hheld => exact hd

/-- **As long as every container connects once, no access comes after the release.** -/
theorem safe_of_run (hrun : (system.only FirstConnection).Run start s)
    (hen : system.enabled s e) : (system.next e s).isSome = true := by
  cases hnext : system.next e s with
  | some s' => rfl
  | none =>
    have hs := sound_of_run (System.run_of_only hrun)
    obtain ⟨holder, hmem, hread⟩ := released_of_undef hs hen hnext
    obtain ⟨p', sc, sc', hlast, hlt, hlast', hid⟩ :=
      hs.released holder.pointer (hs.held holder hmem) hread
    have heq := distinct_of_run hrun holder.pointer p' sc sc' hlast hlast' hid
    exact absurd heq hlt.ne'

/-- `set_mem_limit_in_pages`. -/
def setLimit (limit : UInt64) : Write :=
  ⟨fun sc => sc.setMemLimitInPages limit, fun _ => rfl, fun _ => rfl⟩

/-- The thread of a new pod finds the docker id. The pod is deleted before it records the limit. -/
theorem safe_after_deletion :
    ∃ s, (system.only FirstConnection).Run start s ∧ s.leaked = 1 ∧
      (system.next (.access 0 (setLimit 10000)) s).isSome = true := by
  have hreplay : (((system.only FirstConnection).replay
      [.insertSc (.new 1 0 8 0 0 0), .setDockerId ⟨1, ⟨0⟩⟩ "a", .poll 0,
        .delete ⟨1, ⟨0⟩⟩] start).any fun s =>
      decide (s.leaked = 1 ∧ system.enabled s (.access 0 (setLimit 10000)))) = true := by
    decide +kernel
  obtain ⟨s, hrun, htest⟩ := System.exists_run_of_replay hreplay
  obtain ⟨hleaked, hen⟩ := of_decide_eq_true htest
  exact ⟨s, hrun, hleaked, safe_of_run hrun hen⟩

/-! ## Waiting for a docker id that somebody else gets -/

/-- Holder `i` waits for the docker id of an instance that no map entry leads to. -/
structure Strands (s : RawContainer) (i p : ℕ) : Prop where
  waits : s.holders[i]? = some ⟨p, .waiting⟩
  unmatched : ∀ sc ∈ s.heap.last p, sc.dockerId = ""
  admitted : p < s.heap.fresh
  notBack : ∀ id, s.back? id ≠ some p

theorem back?_delete_ne (hs : ∀ id, s.back? id ≠ some p) (id id' : ContainerId) :
    (s.delete id).back? id' ≠ some p := by
  cases hq : s.subcontainers.lookup id with
  | none =>
    rw [delete_of_none hq]
    exact hs id'
  | some q =>
    intro hb
    unfold back? at hb
    rcases delete_cases hq with ⟨front, next, rest, rfl, hdelete⟩ | ⟨-, hdelete⟩
    · rw [hdelete] at hb
      dsimp only at hb
      rw [lookup_insert'] at hb
      split at hb
      · refine hs id ?_
        unfold back?
        rw [hq, Option.bind_some, List.getLast?_cons_cons]
        exact hb
      · exact hs id' hb
    · rw [hdelete] at hb
      dsimp only at hb
      rw [lookup_erase'] at hb
      split at hb
      · cases hb
      · exact hs id' hb

theorem last_delete (id : ContainerId) (p : ℕ) : (s.delete id).heap.last p = s.heap.last p := by
  cases hq : s.subcontainers.lookup id with
  | none => rw [delete_of_none hq]
  | some q =>
    rcases delete_cases hq with ⟨front, next, rest, -, hdelete⟩ | ⟨-, hdelete⟩
    · rw [hdelete]
      exact Heap.last_release
    · rw [hdelete]

theorem fresh_delete (id : ContainerId) : (s.delete id).heap.fresh = s.heap.fresh := by
  cases hq : s.subcontainers.lookup id with
  | none => rw [delete_of_none hq]
  | some q =>
    rcases delete_cases hq with ⟨front, next, rest, -, hdelete⟩ | ⟨-, hdelete⟩
    · rw [hdelete]
      exact Heap.fresh_release
    · rw [hdelete]

theorem holders_delete (id : ContainerId) : (s.delete id).holders = s.holders := by
  unfold delete
  split
  · rfl
  · rfl
  · rfl

theorem Strands.insertSc (h : Strands s i p) (sc : SubContainer) : Strands (s.insertSc sc) i p where
  waits := by
    obtain ⟨hlt, -⟩ := List.getElem?_eq_some_iff.mp h.waits
    exact (List.getElem?_append_left hlt).trans h.waits
  unmatched sc' hlast := by
    have hlast' : (s.heap.alloc sc).last p = some sc' := hlast
    rw [Heap.last_alloc, if_neg h.admitted.ne] at hlast'
    exact h.unmatched sc' hlast'
  admitted := by
    rw [fresh_insertSc]
    exact Nat.lt_succ_of_lt h.admitted
  notBack id hb := by
    unfold back? at hb
    rw [lookup_insertSc] at hb
    split at hb
    · rw [Option.bind_some, List.getLast?_concat] at hb
      cases hb
      exact lt_irrefl _ h.admitted
    · exact h.notBack id hb

theorem Strands.write {p' : ℕ} {f : SubContainer → SubContainer} (h : Strands s i p)
    (hf : p' = p → ∀ sc, (f sc).dockerId = sc.dockerId) :
    Strands { s with heap := s.heap.write p' f } i p where
  waits := h.waits
  unmatched sc hlast := by
    have hlast' : (s.heap.write p' f).last p = some sc := hlast
    rw [Heap.last_write] at hlast'
    split at hlast'
    · rename_i heq
      obtain ⟨sc₀, hsc₀, rfl⟩ := Option.map_eq_some_iff.mp hlast'
      rw [hf heq.symm]
      exact h.unmatched sc₀ hsc₀
    · exact h.unmatched sc hlast'
  admitted := by
    dsimp only
    rw [Heap.fresh_write]
    exact h.admitted
  notBack := h.notBack

theorem Strands.next (h : Strands s i p) (hen : system.enabled s e)
    (hnext : system.next e s = some s') : Strands s' i p := by
  have hother : ∀ {j : ℕ} {holder holder' : Holder}, s.holders[j]? = some holder →
      holder.point = .working → (s.holders.set j holder')[i]? = some ⟨p, .waiting⟩ := by
    intro j holder holder' hj hworking
    have hne : j ≠ i := by
      rintro rfl
      rw [h.waits] at hj
      cases hj
      cases hworking
    rw [List.getElem?_set_ne hne]
    exact h.waits
  cases e with
  | insertSc sc =>
    cases hnext
    exact h.insertSc sc
  | delete id =>
    cases hnext
    refine ⟨?_, ?_, ?_, back?_delete_ne h.notBack id⟩
    · rw [holders_delete]
      exact h.waits
    · rw [last_delete]
      exact h.unmatched
    · rw [fresh_delete]
      exact h.admitted
  | setDockerId id dockerId =>
    obtain ⟨p', hb, hrest⟩ := Option.bind_eq_some_iff.mp hnext
    obtain ⟨sc, -, hpure⟩ := Option.bind_eq_some_iff.mp hrest
    cases hpure
    refine h.write fun heq => ?_
    rw [heq] at hb
    exact absurd hb (h.notBack id)
  | hold id =>
    obtain ⟨p', -, hpure⟩ := Option.bind_eq_some_iff.mp hnext
    cases hpure
    refine ⟨?_, h.unmatched, h.admitted, h.notBack⟩
    obtain ⟨hlt, -⟩ := List.getElem?_eq_some_iff.mp h.waits
    exact (List.getElem?_append_left hlt).trans h.waits
  | poll j =>
    obtain ⟨holder, hj, hrest⟩ := Option.bind_eq_some_iff.mp hnext
    obtain ⟨sc, hread, hpure⟩ := Option.bind_eq_some_iff.mp hrest
    cases hpure
    split
    · exact h
    · rename_i hmatched
      refine ⟨?_, h.unmatched, h.admitted, h.notBack⟩
      have hne : j ≠ i := by
        rintro rfl
        rw [h.waits] at hj
        cases hj
        exact hmatched (h.unmatched sc (Heap.last_of_read hread))
      show (s.holders.set j _)[i]? = _
      rw [List.getElem?_set_ne hne]
      exact h.waits
  | access j w =>
    obtain ⟨holder, -, hrest⟩ := Option.bind_eq_some_iff.mp hnext
    obtain ⟨sc, -, hpure⟩ := Option.bind_eq_some_iff.mp hrest
    cases hpure
    exact h.write fun _ => w.dockerId
  | leave j =>
    obtain ⟨holder, hj, hpure⟩ := Option.bind_eq_some_iff.mp hnext
    cases hpure
    obtain ⟨holder', hj', hworking⟩ := hen
    obtain rfl : holder' = holder := Option.some.inj ((Option.mem_def.mp hj').symm.trans hj)
    exact ⟨hother hj hworking, h.unmatched, h.admitted, h.notBack⟩

/-- Deletions of `id`, and nothing else. -/
def Deletion (id : ContainerId) (_ : RawContainer) (e : Event) : Prop := e = .delete id

/-- Deletions come to an instance that is not the newest, and release it. -/
theorem exists_release {l : List ℕ} {next : ℕ} {rest : List ℕ} (s : RawContainer)
    (hq : s.subcontainers.lookup id = some (l ++ p :: next :: rest)) :
    ∃ s', (system.only (Deletion id)).Run s s' ∧ s'.holders = s.holders ∧
      s'.heap.read p = none := by
  have hstep : ∀ t : RawContainer, (system.only (Deletion id)).Run t (t.delete id) :=
    fun t => .single ⟨.delete id, ⟨trivial, rfl⟩, rfl⟩
  induction l generalizing s with
  | nil =>
    refine ⟨s.delete id, hstep s, holders_delete id, ?_⟩
    rcases delete_cases hq with ⟨front, next', rest', heq, hdelete⟩ | ⟨hlen, -⟩
    · cases heq
      rw [hdelete]
      exact Heap.read_release.trans (if_pos rfl)
    · simp at hlen
  | cons a l ih =>
    rcases delete_cases hq with ⟨front, next', rest', heq, hdelete⟩ | ⟨hlen, -⟩
    · have hq' : (s.delete id).subcontainers.lookup id = some (l ++ p :: next :: rest) := by
        rw [hdelete]
        dsimp only
        rw [lookup_insert', if_pos rfl]
        exact congrArg some (List.cons.inj heq).2.symm
      obtain ⟨s', hrun, hholders, hread⟩ := ih (s.delete id) hq'
      exact ⟨s', (hstep s).trans hrun, hholders.trans (holders_delete id), hread⟩
    · simp at hlen

/-- **A pod that connects again before it has its docker id.** The thread of the older instance
waits for ever, and there are deletions of its id after which its next look is at released
memory. -/
theorem stranded (hrun : system.Run start s) (hi : s.holders[i]? = some ⟨p, .waiting⟩)
    (hb : s.back? sc.cId = some p) (hread : s.heap.read p = some sc₀) (hno : sc₀.dockerId = "")
    (hnew : sc.dockerId = "") :
    system.enabled s (.insertSc sc) ∧
      (∀ s', system.Run (s.insertSc sc) s' → s'.holders[i]? = some ⟨p, .waiting⟩) ∧
      ∃ s', (system.only (Deletion sc.cId)).Run (s.insertSc sc) s' ∧ system.enabled s' (.poll i) ∧
        system.next (.poll i) s' = none := by
  have hs := sound_of_run hrun
  obtain ⟨l, hq⟩ := exists_queue_of_back hb
  have hadmitted : p < s.heap.fresh := Heap.lt_fresh_of_read hread
  have hqueue : (s.insertSc sc).subcontainers.lookup sc.cId =
      some (l ++ p :: s.heap.fresh :: []) := by
    rw [lookup_insertSc, if_pos rfl, hq, Option.getD_some, List.append_assoc]
    rfl
  have hwaits : (s.insertSc sc).holders[i]? = some ⟨p, .waiting⟩ := by
    obtain ⟨hlt, -⟩ := List.getElem?_eq_some_iff.mp hi
    exact (List.getElem?_append_left hlt).trans hi
  have hlast : (s.heap.alloc sc).last p = some sc₀ := by
    rw [Heap.last_alloc, if_neg hadmitted.ne]
    exact Heap.last_of_read hread
  have hstrands : Strands (s.insertSc sc) i p := by
    refine ⟨hwaits, fun sc' hsc' => ?_, ?_, fun id hback => ?_⟩
    · have heq : sc₀ = sc' := Option.some.inj (hlast.symm.trans hsc')
      rw [← heq]
      exact hno
    · rw [fresh_insertSc]
      exact Nat.lt_succ_of_lt hadmitted
    · by_cases heq : id = sc.cId
      · unfold back? at hback
        rw [heq, hqueue] at hback
        simp at hback
        exact hadmitted.ne hback.symm
      · unfold back? at hback
        rw [lookup_insertSc, if_neg heq] at hback
        obtain ⟨l', hq'⟩ := exists_queue_of_back hback
        have hmem : p ∈ l ++ [p] := by simp
        have hmem' : p ∈ l' ++ [p] := by simp
        exact (hs.queues _ _ hq).notMem (hs.queues _ _ hq') heq hmem hmem'
  refine ⟨hnew, fun s' hrun' => ?_, ?_⟩
  · exact (System.invariant (I := fun t => Strands t i p) hstrands
      (fun _ _ _ ht hen hnext => ht.next hen hnext) hrun').waits
  · obtain ⟨s', hrun', hholders, hnone⟩ := exists_release (s.insertSc sc) hqueue
    have hi' : s'.holders[i]? = some ⟨p, .waiting⟩ := by
      rw [hholders]
      exact hwaits
    refine ⟨s', hrun', ⟨_, Option.mem_def.mpr hi', rfl⟩, ?_⟩
    simp [system, step, hi', hnone]

theorem stranded_after_reconnect :
    ∃ s, system.Run start s ∧ system.enabled s (.insertSc (.new 1 0 9 0 0 0)) ∧
      (∀ s', system.Run (s.insertSc (.new 1 0 9 0 0 0)) s' →
        s'.holders[0]? = some ⟨0, .waiting⟩) ∧
      ∃ s', (system.only (Deletion ⟨1, ⟨0⟩⟩)).Run (s.insertSc (.new 1 0 9 0 0 0)) s' ∧
        system.enabled s' (.poll 0) ∧ system.next (.poll 0) s' = none :=
  ⟨start.insertSc (.new 1 0 8 0 0 0), .single ⟨.insertSc (.new 1 0 8 0 0 0), rfl, rfl⟩,
    stranded (.single ⟨.insertSc (.new 1 0 8 0 0 0), rfl, rfl⟩) rfl rfl rfl rfl rfl⟩

end RawContainer

end EcGcm
