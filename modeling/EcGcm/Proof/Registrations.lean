import EcGcm.Proof.DeleteFrame
import EcGcm.Proof.Survival

/-!
# Steps, by what they do to registrations

Apart from the deployer's own threads there are two ways for a registration to change: an
admission adds an instance, a deletion takes the oldest one away (`next_cases`). A statement about
registrations over whole runs is a case distinction over these, the lemmas below each case being
the same for all of them:

* `ElasticContainer.Every`: something holds of every instance under its id;
* `ElasticContainer.LinkedOnly`: an id that has an agent has an instance.
-/

set_option autoImplicit false

namespace EcGcm

open Handler UnorderedMap

namespace ElasticContainer

variable {ec : ElasticContainer} {id id' : ContainerId} {sc : SubContainer}
  {agent : Option AgentClient} {p : ContainerId → SubContainer → Prop}

/-- `p` holds of every registered instance. -/
def Every (p : ContainerId → SubContainer → Prop) (ec : ElasticContainer) : Prop :=
  ∀ id q, ec.subcontainers.lookup id = some q → ∀ sc ∈ q, p id sc

/-- What only depends on who an instance is stays true while identities do. -/
theorem Every.of_shape {ec' : ElasticContainer} (h : ec.Every p)
    (hp : ∀ id sc sc', sc'.identity = sc.identity → p id sc → p id sc')
    (hs : ec'.shape = ec.shape) : ec'.Every p := by
  intro id q hq sc hsc
  have hid := congrFun hs id
  unfold shape at hid
  rw [hq, Option.map_some] at hid
  obtain ⟨q₀, hq₀, hmap⟩ := Option.map_eq_some_iff.mp hid.symm
  have hmem : sc.identity ∈ q₀.map SubContainer.identity := by
    rw [hmap]
    exact List.mem_map_of_mem hsc
  obtain ⟨sc₀, hsc₀, heq⟩ := List.mem_map.mp hmem
  exact hp id sc₀ sc heq.symm (h id q₀ hq₀ sc₀ hsc₀)

theorem Every.modifyBack {f : SubContainer → SubContainer} (h : ec.Every p)
    (hf : ∀ sc, p id sc → p id (f sc)) : (ec.modifyBack id f).Every p := by
  unfold ElasticContainer.modifyBack
  cases hq : ec.subcontainers.lookup id with
  | none => exact h
  | some q =>
    intro id' q' hq' sc hsc
    dsimp only at hq'
    rw [lookup_insert'] at hq'
    split at hq'
    · rename_i heq
      cases hq'
      subst heq
      rcases List.eq_nil_or_concat' q with rfl | ⟨l, a, rfl⟩
      · cases hsc
      · rw [List.modifyLast_concat] at hsc
        rcases List.mem_append.mp hsc with hl | ha
        · exact h _ _ hq sc (List.mem_append_left _ hl)
        · obtain rfl := List.mem_singleton.mp ha
          exact hf a (h _ _ hq a (by simp))
    · exact h id' q' hq' sc hsc

/-! ## After an admission -/

theorem Every.register (h : ec.Every p) (hsc : p sc.cId sc)
    (hins : ∀ sc', p sc.cId sc' → p sc.cId (sc'.setScInserted true)) :
    (ec.register sc agent).Every p := by
  have hnew : (ec.insertSc sc).Every p := by
    intro id q hq sc' hsc'
    rw [lookup_insertSc] at hq
    split at hq
    · rename_i heq
      cases hq
      subst heq
      rcases List.mem_append.mp hsc' with hold | hlast
      · cases hlook : ec.subcontainers.lookup sc.cId with
        | none =>
          rw [hlook] at hold
          cases hold
        | some q₀ =>
          rw [hlook] at hold
          exact h _ q₀ hlook sc' hold
      · rw [List.mem_singleton.mp hlast]
        exact hsc
    · exact h id q hq sc' hsc'
  cases agent with
  | none => exact hnew
  | some a =>
    have hlink : ((ec.insertSc sc).addToScAcMap sc.cId a).Every p := hnew
    exact hlink.modifyBack hins

theorem lookup_register_ne (hne : id ≠ sc.cId) :
    (ec.register sc agent).subcontainers.lookup id = ec.subcontainers.lookup id := by
  have hins : (ec.insertSc sc).subcontainers.lookup id = ec.subcontainers.lookup id := by
    rw [lookup_insertSc, if_neg hne]
  cases agent with
  | none => exact hins
  | some a => exact (lookup_modifyBack_ne hne).trans hins

theorem lookup_register_self :
    ∃ q, (ec.register sc agent).subcontainers.lookup sc.cId = some q := by
  have hb : ∃ sc', (ec.register sc agent).back? sc.cId = some sc' := by
    cases agent with
    | none => exact ⟨sc, back?_insertSc⟩
    | some a =>
      have hlink : ((ec.insertSc sc).addToScAcMap sc.cId a).back? sc.cId = some sc :=
        back?_insertSc
      exact ⟨_, back?_modifyBack hlink⟩
  obtain ⟨sc', hb⟩ := hb
  obtain ⟨l, hl⟩ := lookup_of_back? hb
  exact ⟨_, hl⟩

theorem agent?_register_ne (hne : id ≠ sc.cId) :
    (ec.register sc agent).agent? id = ec.agent? id := by
  cases agent with
  | none => exact agent?_congr scAcMap_insertSc id
  | some a =>
    have hmap : (ec.register sc (some a)).scAcMap = ec.scAcMap.emplace sc.cId (some a) := by
      unfold register
      rw [scAcMap_modifyBack]
      unfold addToScAcMap
      dsimp only
      rw [scAcMap_insertSc]
    unfold agent?
    rw [hmap]
    unfold emplace
    split
    · rfl
    · rw [AList.lookup_insert_ne hne]

/-! ## An id that has an agent has an instance -/

/-- Only registered ids are linked to an agent. -/
def LinkedOnly (ec : ElasticContainer) : Prop :=
  ∀ id a, ec.agent? id = some a → ∃ q, ec.subcontainers.lookup id = some q

theorem LinkedOnly.congr {ec' : ElasticContainer} (h : ec.LinkedOnly)
    (hagent : ∀ id, ec'.agent? id = ec.agent? id)
    (hlook : ∀ id, (ec'.subcontainers.lookup id).isSome = (ec.subcontainers.lookup id).isSome) :
    ec'.LinkedOnly := by
  intro id a ha
  obtain ⟨q, hq⟩ := h id a ((hagent id).symm.trans ha)
  exact Option.isSome_iff_exists.mp ((hlook id).trans (by rw [hq]; rfl))

theorem LinkedOnly.modifyBack {f : SubContainer → SubContainer} (h : ec.LinkedOnly) :
    (ec.modifyBack id f).LinkedOnly := by
  refine h.congr (agent?_congr scAcMap_modifyBack) fun id' => ?_
  unfold ElasticContainer.modifyBack
  split
  · rename_i q hq
    rw [lookup_insert']
    split
    · rename_i heq
      rw [heq, hq]
      rfl
    · rfl
  · rfl

theorem LinkedOnly.register (h : ec.LinkedOnly) : (ec.register sc agent).LinkedOnly := by
  intro id a ha
  by_cases heq : id = sc.cId
  · subst heq
    exact lookup_register_self
  · rw [lookup_register_ne heq]
    exact h id a ((agent?_register_ne heq).symm.trans ha)

end ElasticContainer

namespace Manager

open ElasticContainer

variable {m m' : Manager} {id id' : ContainerId} {front : SubContainer} {dockerId : String}
  {rest : List SubContainer} {p : ContainerId → SubContainer → Prop}

/-! ## After a deletion -/

theorem agent?_halfDeleted :
    (m.halfDeleted id).ec.agent? id' = if id' = id then none else m.ec.agent? id' := by
  unfold ElasticContainer.agent?
  rw [scAcMap_halfDeleted, lookup_erase']
  split <;> rfl

theorem every_halfDeleted (h : m.ec.Every p)
    (hq : m.ec.subcontainers.lookup id = some (front :: rest)) : (m.halfDeleted id).ec.Every p := by
  intro id' q hq' sc hsc
  rw [lookup_halfDeleted hq] at hq'
  split at hq'
  · rename_i heq
    split at hq'
    · cases hq'
    · cases hq'
      subst heq
      exact h _ _ hq sc (List.mem_cons_of_mem _ hsc)
  · exact h id' q hq' sc hsc

theorem linkedOnly_halfDeleted (h : m.ec.LinkedOnly)
    (hq : m.ec.subcontainers.lookup id = some (front :: rest)) :
    (m.halfDeleted id).ec.LinkedOnly := by
  intro id' a ha
  rw [agent?_halfDeleted] at ha
  split at ha
  · cases ha
  · rename_i hne
    rw [lookup_halfDeleted hq, if_neg hne]
    exact h id' a ha

end Manager

/-! ## The steps -/

/-- The events the deployer's matching threads are made of. -/
def Event.isMatching : Event → Bool
  | .podSpec _ => true
  | .matchDockerId _ _ => true
  | _ => false

namespace Manager

variable {m m' : Manager} {e : Event}

/-- An admission, as the controller's state shows it. -/
def Admits (e : Event) (m m' : Manager) : Prop :=
  ∃ env req hostIp clifd cpu quota, e = .message env req hostIp clifd ∧ req.reqType = initReq ∧
    Quiet (m.admitted cpu (.new req.cgroupId hostIp clifd quota req.request env.now)) m'

/-- A deletion that got as far as the front of a queue, whether or not it had to wait then. -/
def Deletes (e : Event) (m m' : Manager) : Prop :=
  ∃ d id front rest, e = .deletePod d ∧ m.getScIdFromDockerId d = id ∧ id.cgroupId ≠ 0 ∧
    m.ec.subcontainers.lookup id = some (front :: rest) ∧
    m'.ec.subcontainers = (m.halfDeleted id).ec.subcontainers ∧
    m'.ec.scAcMap = (m.halfDeleted id).ec.scAcMap

/-- **What a step does to registrations**, the deployer's matching threads apart: nothing, an
admission or a deletion. -/
theorem next_cases (he : e.isMatching = false) (hnext : gcm.next e m = some m') :
    Quiet m m' ∨ Admits e m m' ∨ Deletes e m m' := by
  have hquiet : ∀ {α : Type} {x : M α}, Keeps Quiet x →
      wp x (fun _ m' => Quiet m m' ∨ Admits e m m' ∨ Deletes e m m')
        (fun _ m' => Quiet m m' ∨ Admits e m m' ∨ Deletes e m m') m := by
    intro α x hx
    exact wp_mono (hx.wp m) (fun _ _ => .inl) (fun _ _ => .inl)
  refine resume_of_wp (I := fun m' => Quiet m m' ∨ Admits e m m' ∨ Deletes e m m') ?_ hnext
  cases e with
  | appSpec spec => exact hquiet (keeps_bind quiet_reportAppSpec fun _ => keeps_pure _)
  | podSpec pod => cases he
  | matchDockerId scId dockerId => cases he
  | deletePod dockerId =>
    unfold Event.handle
    rw [wp_bind]
    refine wp_deletePod (.inl (refl_of Quiet m)) (fun _ => .inl (refl_of Quiet m))
      (fun id front rest _ hid hne hq => ?_) (fun id front rest hid hne hq => ?_)
    · exact .inr (.inr ⟨dockerId, id, front, rest, rfl, hid, hne, hq, rfl, rfl⟩)
    · exact .inr (.inr ⟨dockerId, id, front, rest, rfl, hid, hne, hq,
        ElasticContainer.subcontainers_updateFairCpuShare,
        ElasticContainer.scAcMap_updateFairCpuShare⟩)
  | memLimit env id clifd => exact hquiet (keeps_inThread quiet_mem.determineMemLimitForNewPod)
  | idleSweep env => exact hquiet quiet_cpu.checkForIdleContainers
  | periodicReclaim env => exact hquiet (keeps_inThread quiet_mem.periodicReclaim)
  | message env req hostIp clifd =>
    unfold Event.handle
    dsimp only
    rw [wp_inThread, wp_bind]
    show wp (handleReq env req hostIp clifd) (fun _ m' => Quiet m m' ∨ _) _ m
    unfold handleReq
    rw [wp_ite]
    split
    · exact hquiet quiet_mem.handleMemReq
    · rw [wp_ite]
      split
      · exact hquiet quiet_cpu.handleCpuUsageReport
      · rw [wp_ite]
        split
        · rename_i ht
          refine wp_handleAddCgroupToEc fun cpu quota m' hm => .inr (.inl ?_)
          exact ⟨env, req, hostIp, clifd, cpu, quota, rfl, ht, hm⟩
        · exact .inl (refl_of Quiet m)

/-- The rule for a property of all instances that who an instance is decides. -/
theorem every_next {p : ContainerId → SubContainer → Prop} (h : m.ec.Every p)
    (hp : ∀ id sc sc', sc'.identity = sc.identity → p id sc → p id sc')
    (hnew : ∀ sc, sc.dockerId = "" → p sc.cId sc)
    (hins : ∀ id sc, p id sc → p id (sc.setScInserted true))
    (he : e.isMatching = false) (hnext : gcm.next e m = some m') : m'.ec.Every p := by
  rcases next_cases he hnext with hquiet | ⟨env, req, hostIp, clifd, cpu, quota, -, -, hquiet⟩ |
    ⟨d, id, front, rest, -, -, -, hq, hsub, -⟩
  · exact h.of_shape hp hquiet.shape
  · have hreg : (m.admitted cpu
        (.new req.cgroupId hostIp clifd quota req.request env.now)).ec.Every p := by
      have h' : ({ m.ec with cpu := cpu } : ElasticContainer).Every p := h
      exact h'.register (hnew _ rfl) (hins _)
    exact hreg.of_shape hp hquiet.shape
  · unfold ElasticContainer.Every
    rw [hsub]
    exact every_halfDeleted h hq

theorem linkedOnly_matching (h : m.ec.LinkedOnly) (he : e.isMatching = true)
    (hnext : gcm.next e m = some m') : m'.ec.LinkedOnly := by
  refine resume_of_wp (I := fun m => m.ec.LinkedOnly) ?_ hnext
  cases e with
  | podSpec pod =>
    unfold Event.handle
    rw [wp_bind]
    refine wp_reportPodSpec h h (fun _ => h) fun scId m₁ hm₁ => ?_
    have h₁ : m₁.ec.LinkedOnly := by
      rw [hm₁]
      exact h
    exact h₁.modifyBack
  | matchDockerId scId dockerId => exact wp_matcher h h.modifyBack
  | appSpec spec => cases he
  | deletePod dockerId => cases he
  | message env req hostIp clifd => cases he
  | memLimit env id clifd => cases he
  | idleSweep env => cases he
  | periodicReclaim env => cases he

theorem linkedOnly_other (h : m.ec.LinkedOnly) (he : e.isMatching = false)
    (hnext : gcm.next e m = some m') : m'.ec.LinkedOnly := by
  rcases next_cases he hnext with hquiet | ⟨env, req, hostIp, clifd, cpu, quota, -, -, hquiet⟩ |
    ⟨d, id, front, rest, -, -, -, hq, hsub, hac⟩
  · exact h.congr hquiet.agent hquiet.isSome_lookup
  · have hreg : (m.admitted cpu
        (.new req.cgroupId hostIp clifd quota req.request env.now)).ec.LinkedOnly := by
      have h' : ({ m.ec with cpu := cpu } : ElasticContainer).LinkedOnly := h
      exact h'.register
    exact hreg.congr hquiet.agent hquiet.isSome_lookup
  · intro id' a ha
    rw [ElasticContainer.agent?_congr hac] at ha
    rw [hsub]
    exact linkedOnly_halfDeleted h hq id' a ha

/-- **In every reachable state, whoever has an agent is registered.** -/
theorem linkedOnly_of_run {db : UnorderedMap Ip4Addr AgentClient} (hrun : gcm.Run (.new db) m) :
    m.ec.LinkedOnly := by
  refine System.invariant (I := fun m => m.ec.LinkedOnly) (fun _ _ ha => by cases ha)
    (fun e t t' h _ hnext => ?_) hrun
  cases he : e.isMatching with
  | true => exact linkedOnly_matching h he hnext
  | false => exact linkedOnly_other h he hnext

end Manager

end EcGcm
