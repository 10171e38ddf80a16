import EcGcm.Proof.Queues

/-!
# Calls that only touch the agent side

`set_sc_quota_syscall`, and every other call that looks an agent up, may leave an entry in
`sc_ac_map` and a request on the wire; nothing else (`Manager.AgentFrame`). The entry it may leave
is a null pointer under an id that had none, so what a later lookup answers (`agent?`) does not
change.
-/

set_option autoImplicit false

namespace EcGcm

/-- What a lookup of `id` answers. -/
def ElasticContainer.agent? (ec : ElasticContainer) (id : ContainerId) : Option AgentClient :=
  (ec.scAcMap.lookup id).join

theorem ElasticContainer.getCorresAgentClient_fst (ec : ElasticContainer) (id : ContainerId) :
    (ec.getCorresAgentClient id).1 = ec.agent? id := by
  unfold getCorresAgentClient UnorderedMap.subscript agent?
  cases ec.scAcMap.lookup id <;> rfl

/-- The null entry a lookup may leave is invisible to lookups. -/
theorem ElasticContainer.agent?_getCorresAgentClient (ec : ElasticContainer)
    (id id' : ContainerId) : (ec.getCorresAgentClient id).2.agent? id' = ec.agent? id' := by
  unfold getCorresAgentClient UnorderedMap.subscript agent?
  cases h : ec.scAcMap.lookup id with
  | some a => rfl
  | none =>
    show ((ec.scAcMap.insert id none).lookup id').join = _
    rw [UnorderedMap.lookup_insert']
    split
    · rename_i heq
      rw [heq, h]
      rfl
    · rfl

namespace Manager

open Handler

/-- `m'` is `m` but for null entries in the agent map and the requests sent. -/
def AgentFrame (m m' : Manager) : Prop :=
  ∃ scAcMap quotaRequests,
    (∀ id, (scAcMap.lookup id).join = m.ec.agent? id) ∧
    m' = { m with ec := { m.ec with scAcMap := scAcMap }, quotaRequests := quotaRequests }

variable {m m' : Manager} {env : Env} {id : ContainerId} {sc : SubContainer}

theorem AgentFrame.refl (m : Manager) : AgentFrame m m := ⟨_, _, fun _ => rfl, rfl⟩

theorem AgentFrame.agent? (h : AgentFrame m m') (id : ContainerId) :
    m'.ec.agent? id = m.ec.agent? id := by
  obtain ⟨_, _, hagent, rfl⟩ := h
  exact hagent id

theorem AgentFrame.back? (h : AgentFrame m m') (id : ContainerId) :
    m'.ec.back? id = m.ec.back? id := by
  obtain ⟨_, _, _, rfl⟩ := h
  rfl

theorem AgentFrame.subcontainers (h : AgentFrame m m') :
    m'.ec.subcontainers = m.ec.subcontainers := by
  obtain ⟨_, _, _, rfl⟩ := h
  rfl

theorem AgentFrame.cpu (h : AgentFrame m m') : m'.ec.cpu = m.ec.cpu := by
  obtain ⟨_, _, _, rfl⟩ := h
  rfl

theorem AgentFrame.mem (h : AgentFrame m m') : m'.ec.mem = m.ec.mem := by
  obtain ⟨_, _, _, rfl⟩ := h
  rfl

theorem AgentFrame.trans {m'' : Manager} (h : AgentFrame m m') (h' : AgentFrame m' m'') :
    AgentFrame m m'' := by
  obtain ⟨_, _, hagent, rfl⟩ := h
  obtain ⟨_, _, hagent', rfl⟩ := h'
  exact ⟨_, _, fun id => (hagent' id).trans (hagent id), rfl⟩

theorem wp_getCorresAgentClient {Q : Option AgentClient → Manager → Prop}
    {E : Halt → Manager → Prop} (hQ : ∀ m', AgentFrame m m' → Q (m.ec.agent? id) m') :
    wp (getCorresAgentClient id) Q E m := by
  have h := hQ { m with ec := (m.ec.getCorresAgentClient id).2 }
    ⟨_, _, m.ec.agent?_getCorresAgentClient id, rfl⟩
  rw [← m.ec.getCorresAgentClient_fst] at h
  exact h

/-- A lookup that finds an agent leaves nothing behind. -/
theorem getCorresAgentClient_of_agent {agent : AgentClient} (h : m.ec.agent? id = some agent) :
    (getCorresAgentClient id).run m = .ret (some agent) m := by
  have hlook : m.ec.scAcMap.lookup id = some (some agent) := Option.join_eq_some_iff.mp h
  unfold getCorresAgentClient
  rw [run_bind_of_ret run_get]
  unfold ElasticContainer.getCorresAgentClient
  rw [UnorderedMap.subscript_of_lookup hlook]
  rfl

/-- The rule for a quota push: a container that is not inserted blocks it, one without an agent
ends the process, and with an agent the status comes back. -/
theorem wp_setScQuotaSyscall {quota : UInt64} {seqNumber : UInt32}
    {Q : Int → Manager → Prop} {E : Halt → Manager → Prop}
    (hhang : sc.inserted = false → E .hang m)
    (hexit : ∀ m', AgentFrame m m' → sc.inserted = true → m.ec.agent? sc.cId = none → E .exit m')
    (hret : ∀ m' agent, AgentFrame m m' → sc.inserted = true →
      m.ec.agent? sc.cId = some agent → Q (env.updateContainerQuota sc.cId) m') :
    wp (setScQuotaSyscall env sc quota seqNumber) Q E m := by
  unfold setScQuotaSyscall
  rw [wp_ite]
  split
  · rename_i hins
    exact hhang (by simpa using hins)
  · rename_i hins
    have hins' : sc.inserted = true := by simpa using hins
    rw [wp_bind]
    refine wp_getCorresAgentClient fun m' hm => ?_
    cases hagent : m.ec.agent? sc.cId with
    | none => exact hexit _ hm hins' hagent
    | some agent =>
      refine hret _ agent (hm.trans ?_) hins' hagent
      exact ⟨m'.ec.scAcMap, _, fun _ => rfl, rfl⟩

/-- A push that reaches its agent is one more request on the wire. -/
theorem setScQuotaSyscall_of_agent {quota : UInt64} {seqNumber : UInt32} {agent : AgentClient}
    (hins : sc.inserted = true) (h : m.ec.agent? sc.cId = some agent) :
    (setScQuotaSyscall env sc quota seqNumber).run m = .ret (env.updateContainerQuota sc.cId)
      { m with quotaRequests := m.quotaRequests ++
        [⟨agent, sc.cId.cgroupId, quota, changeOf quota sc.quota, seqNumber⟩] } := by
  unfold setScQuotaSyscall
  rw [hins, if_neg (by decide), run_bind_of_ret (getCorresAgentClient_of_agent h)]
  rfl

end Manager

end EcGcm
