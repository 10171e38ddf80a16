import EcGcm.Proof.Agents

/-!
# The container-to-agent map

`sc_ac_map` is read with `operator[]`, which leaves a null entry for an id that has none, and
written with `insert`, which does nothing for an id that has an entry. So a lookup that comes
before the registration of its id makes the registration a no-op, and the presence test of the
docker-id matcher is satisfied by an entry nobody registered.

What the map is for is `latest`: the agent of the latest registration since the latest erasure.
A sequence of operations keeps it exactly when it is **careful**, that is, when it only looks up
ids that are registered, and only registers ids that are not, or again with the same agent.
-/

set_option autoImplicit false

namespace EcGcm.AgentMap

/-- The operations on the map. -/
inductive Op
  | lookup (id : ContainerId)
  | register (id : ContainerId) (agent : AgentClient)
  | erase (id : ContainerId)
  deriving DecidableEq

def Op.apply (ec : ElasticContainer) : Op → ElasticContainer
  | .lookup id => (ec.getCorresAgentClient id).2
  | .register id agent => ec.addToScAcMap id agent
  | .erase id => { ec with scAcMap := ec.scAcMap.erase id }

/-- The elastic container after a sequence of operations. -/
def after (ops : List Op) : ElasticContainer := ops.foldl Op.apply .new

/-- The presence test of `scIdToDockerIdMatcherThread` and `deleteFromScAcMap`. -/
def present (ec : ElasticContainer) (id : ContainerId) : Bool := (ec.scAcMap.lookup id).isSome

/-! ## What the map is for -/

def Op.note (registered : ContainerId → Option AgentClient) :
    Op → ContainerId → Option AgentClient
  | .lookup _ => registered
  | .register id agent => Function.update registered id (some agent)
  | .erase id => Function.update registered id none

/-- The agent of the latest registration after the latest erasure. -/
def latest (ops : List Op) : ContainerId → Option AgentClient :=
  ops.foldl Op.note fun _ => none

def Op.isLookup : Op → Bool
  | .lookup _ => true
  | _ => false

def withoutLookups (ops : List Op) : List Op := ops.filter fun op => !op.isLookup

/-- A lookup would answer what was registered, and no answer depends on earlier lookups. -/
structure Faithful (ops : List Op) (id : ContainerId) : Prop where
  answer : (after ops).agent? id = latest ops id
  unread : (after ops).agent? id = (after (withoutLookups ops)).agent? id
  presence : present (after ops) id = present (after (withoutLookups ops)) id

/-- At every point of the sequence, for every id. -/
def KeepsRegistered (ops : List Op) : Prop := ∀ pre, pre <+: ops → ∀ id, Faithful pre id

def Op.Allowed (registered : ContainerId → Option AgentClient) : Op → Prop
  | .lookup id => registered id ≠ none
  | .register id agent => registered id = none ∨ registered id = some agent
  | .erase _ => True

def Careful (ops : List Op) : Prop := ∀ pre op, pre ++ [op] <+: ops → op.Allowed (latest pre)

/-! ## Operation by operation -/

variable {ops pre : List Op} {op : Op} {id : ContainerId}

theorem after_concat : after (pre ++ [op]) = op.apply (after pre) := by
  unfold after
  rw [List.foldl_append]
  rfl

theorem latest_concat : latest (pre ++ [op]) = op.note (latest pre) := by
  unfold latest
  rw [List.foldl_append]
  rfl

theorem withoutLookups_concat :
    withoutLookups (pre ++ [op]) =
      if op.isLookup then withoutLookups pre else withoutLookups pre ++ [op] := by
  unfold withoutLookups
  rw [List.filter_append]
  cases h : op.isLookup <;> simp [h]

theorem careful_concat_iff : Careful (pre ++ [op]) ↔ Careful pre ∧ op.Allowed (latest pre) := by
  constructor
  · intro h
    refine ⟨fun p o hp => h p o (hp.trans (List.prefix_append _ _)), h pre op List.prefix_rfl⟩
  · rintro ⟨hpre, hop⟩ p o hp
    rcases List.prefix_concat_iff.mp hp with heq | hshort
    · obtain ⟨rfl, hsingle⟩ := List.append_inj' heq rfl
      cases hsingle
      exact hop
    · exact hpre p o hshort

theorem latest_withoutLookups : latest (withoutLookups ops) = latest ops := by
  induction ops using List.reverseRecOn with
  | nil => rfl
  | append_singleton pre op ih =>
    rw [withoutLookups_concat, latest_concat]
    split
    · rename_i hlookup
      cases op with
      | lookup id => exact ih
      | register id agent => cases hlookup
      | erase id => cases hlookup
    · rw [latest_concat, ih]

theorem Careful.withoutLookups (h : Careful ops) : Careful (withoutLookups ops) := by
  induction ops using List.reverseRecOn with
  | nil => exact h
  | append_singleton pre op ih =>
    obtain ⟨hpre, hop⟩ := careful_concat_iff.mp h
    rw [withoutLookups_concat]
    split
    · exact ih hpre
    · refine careful_concat_iff.mpr ⟨ih hpre, ?_⟩
      rw [latest_withoutLookups]
      exact hop

/-- **After a careful sequence the map holds exactly what is registered.** -/
theorem Careful.lookup_after (h : Careful ops) (id : ContainerId) :
    (after ops).scAcMap.lookup id = (latest ops id).map some := by
  induction ops using List.reverseRecOn generalizing id with
  | nil => rfl
  | append_singleton pre op ih =>
    obtain ⟨hpre, hop⟩ := careful_concat_iff.mp h
    rw [after_concat, latest_concat]
    cases op with
    | lookup key =>
      -- the key has an entry, so reading it changes nothing
      obtain ⟨agent, hagent⟩ := Option.ne_none_iff_exists'.mp hop
      have hentry := ih hpre key
      rw [hagent, Option.map_some] at hentry
      show ((after pre).scAcMap.subscript key none).2.lookup id = (latest pre id).map some
      rw [UnorderedMap.subscript_of_lookup hentry]
      exact ih hpre id
    | register key agent =>
      have hentry := ih hpre key
      show (UnorderedMap.emplace (after pre).scAcMap key (some agent)).lookup id =
        (Function.update (latest pre) key (some agent) id).map some
      rcases hop with hnone | hsame
      · rw [hnone, Option.map_none] at hentry
        rw [UnorderedMap.emplace_of_lookup_none hentry, UnorderedMap.lookup_insert',
          Function.update_apply]
        split
        · rfl
        · exact ih hpre id
      · rw [hsame, Option.map_some] at hentry
        rw [UnorderedMap.emplace_of_lookup hentry, ← hsame, Function.update_eq_self]
        exact ih hpre id
    | erase key =>
      show ((after pre).scAcMap.erase key).lookup id =
        (Function.update (latest pre) key none id).map some
      rw [UnorderedMap.lookup_erase', Function.update_apply]
      split
      · rfl
      · exact ih hpre id

theorem Careful.agent? (h : Careful ops) (id : ContainerId) :
    (after ops).agent? id = latest ops id := by
  unfold ElasticContainer.agent?
  rw [h.lookup_after id]
  cases latest ops id <;> rfl

theorem Careful.present (h : Careful ops) (id : ContainerId) :
    present (after ops) id = (latest ops id).isSome := by
  unfold AgentMap.present
  rw [h.lookup_after id, Option.isSome_map]

theorem Careful.faithful (h : Careful ops) (id : ContainerId) : Faithful ops id where
  answer := h.agent? id
  unread := by rw [h.agent? id, h.withoutLookups.agent? id, latest_withoutLookups]
  presence := by rw [h.present id, h.withoutLookups.present id, latest_withoutLookups]

/-- A careless operation shows at once: in the presence of its own id, or in its answer. -/
theorem Careful.allowed_of_faithful (h : Careful pre) (hf : ∀ id, Faithful (pre ++ [op]) id) :
    op.Allowed (latest pre) := by
  cases op with
  | lookup key =>
    intro hnone
    have hpresence := (hf key).presence
    rw [withoutLookups_concat] at hpresence
    have habsent := h.withoutLookups.present key
    rw [latest_withoutLookups, hnone] at habsent
    have hentry := h.lookup_after key
    rw [hnone, Option.map_none] at hentry
    have hleft : AgentMap.present (after (pre ++ [.lookup key])) key = true := by
      rw [after_concat]
      show (((after pre).scAcMap.subscript key none).2.lookup key).isSome = true
      unfold UnorderedMap.subscript
      rw [hentry]
      dsimp only
      rw [AList.lookup_insert]
      rfl
    rw [hleft] at hpresence
    exact absurd (hpresence.trans habsent) (by decide)
  | register key agent =>
    by_cases hnone : latest pre key = none
    · exact .inl hnone
    · obtain ⟨old, hold⟩ := Option.ne_none_iff_exists'.mp hnone
      have hanswer := (hf key).answer
      have hentry := h.lookup_after key
      rw [hold, Option.map_some] at hentry
      rw [after_concat, latest_concat] at hanswer
      have hkept : (after pre).addToScAcMap key agent = after pre := by
        unfold ElasticContainer.addToScAcMap
        rw [UnorderedMap.emplace_of_lookup hentry]
      unfold Op.apply Op.note at hanswer
      dsimp only at hanswer
      rw [hkept, h.agent? key, Function.update_self] at hanswer
      exact .inr hanswer
  | erase key => exact trivial

/-- **The map keeps what was registered exactly when it is used carefully.** -/
theorem keepsRegistered_iff (ops : List Op) : KeepsRegistered ops ↔ Careful ops := by
  constructor
  · intro hkeeps
    induction ops using List.reverseRecOn with
    | nil =>
      intro pre op hp
      exact absurd (List.prefix_nil.mp hp) (by simp)
    | append_singleton pre op ih =>
      have hpre : Careful pre := ih fun p hp => hkeeps p (hp.trans (List.prefix_append _ _))
      exact careful_concat_iff.mpr ⟨hpre, hpre.allowed_of_faithful (hkeeps _ List.prefix_rfl)⟩
  · intro hcareful pre hp id
    have hpre : Careful pre := fun p o hpo => hcareful p o (hpo.trans hp)
    exact hpre.faithful id

/-- A lookup by the reclaim thread, then the registration by the connection thread: every later
lookup answers null. -/
theorem registration_lost_after_lookup : ¬ ∀ ops, KeepsRegistered ops := by
  intro hclaim
  have h := hclaim [.lookup ⟨1, ⟨0⟩⟩, .register ⟨1, ⟨0⟩⟩ ⟨⟨0⟩, 4445⟩] _ List.prefix_rfl ⟨1, ⟨0⟩⟩
  exact absurd h.answer (by decide +kernel)

end EcGcm.AgentMap
