import EcGcm.Proof.Framing
import EcGcm.Proof.Quiet

/-!
# One key for a container on every channel

A container is named over four channels: its `_INIT_` and its memory requests over TCP, where the
server writes the peer's address into the message; its CPU reports over UDP, where the message
carries the address in host order; and the deployer's spec, where the address is text. The
registries are keyed by what these paths build, and the agent of the node is looked up under the
same word.

An address is its four octets (`Quad`). `netWord` is the word that has them in network order in
memory, `hostWord` the word they are the digits of, and `dotted` the text. The paths meet because
`htonl` takes the second to the first (`htonl_hostWord`) and `inet_addr` the third
(`inetAddr_dotted`); all else is unconverted.
-/

set_option autoImplicit false

namespace EcGcm

open Bytes Handler

/-- The address `a.b.c.d`. -/
structure Quad where
  a : UInt8
  b : UInt8
  c : UInt8
  d : UInt8
  deriving DecidableEq, Repr

namespace Quad

/-- The word in memory is the octets in order, as in a `sockaddr_in`. -/
def netWord (q : Quad) : UInt32 := .ofNat (leNat [q.a, q.b, q.c, q.d])

/-- `a` is the most significant octet. -/
def hostWord (q : Quad) : UInt32 := .ofNat (leNat [q.d, q.c, q.b, q.a])

/-- The decimal octets with dots between them. -/
def dotted (q : Quad) : String :=
  ".".intercalate
    [toString q.a.toNat, toString q.b.toNat, toString q.c.toNat, toString q.d.toNat]

/-- 255.255.255.255, which `inet_addr` cannot tell from an error. -/
def broadcast : Quad := ⟨255, 255, 255, 255⟩

variable {q : Quad}

theorem toNat_netWord : q.netWord.toNat = leNat [q.a, q.b, q.c, q.d] := by
  have ha := q.a.toNat_lt
  have hb := q.b.toNat_lt
  have hc := q.c.toNat_lt
  have hd := q.d.toNat_lt
  refine UInt32.toNat_ofNat_of_lt' ?_
  show leNat [q.a, q.b, q.c, q.d] < 2 ^ 32
  simp only [leNat]
  omega

theorem toNat_hostWord : q.hostWord.toNat = leNat [q.d, q.c, q.b, q.a] :=
  toNat_netWord (q := ⟨q.d, q.c, q.b, q.a⟩)

theorem netWord_injective : Function.Injective netWord := by
  intro q q' h
  have hnat := congrArg UInt32.toNat h
  rw [toNat_netWord, toNat_netWord] at hnat
  simp only [leNat] at hnat
  have hlt : ∀ x : UInt8, x.toNat < 256 := UInt8.toNat_lt
  obtain ⟨a, b, c, d⟩ := q
  obtain ⟨a', b', c', d'⟩ := q'
  have := hlt a; have := hlt b; have := hlt c; have := hlt d
  have := hlt a'; have := hlt b'; have := hlt c'; have := hlt d'
  simp only [mk.injEq, ← UInt8.toNat_inj]
  dsimp only at hnat
  omega

end Quad

/-! ## The conversions -/

namespace Ip4Addr

theorem mul_or_eq_add {n x y : ℕ} (h : y < 2 ^ n) : x * 2 ^ n ||| y = x * 2 ^ n + y := by
  rw [Nat.mul_comm, Nat.two_pow_add_eq_or_of_lt h]

/-- `htonl` reverses the four bytes. -/
theorem toNat_htonl (w : UInt32) :
    (htonl w).toNat = w.toNat % 256 * 2 ^ 24 + w.toNat / 2 ^ 8 % 256 * 2 ^ 16 +
      w.toNat / 2 ^ 16 % 256 * 2 ^ 8 + w.toNat / 2 ^ 24 % 256 := by
  have hmask : ∀ n : ℕ, n &&& 255 = n % 256 := fun n => Nat.and_two_pow_sub_one_eq_mod n 8
  unfold htonl
  simp only [UInt32.toNat_or, UInt32.toNat_shiftLeft, UInt32.toNat_shiftRight, UInt32.toNat_and,
    UInt32.reduceToNat, Nat.reduceMod, Nat.shiftRight_eq_div_pow, Nat.shiftLeft_eq, hmask]
  have h₀ : w.toNat % 256 < 256 := Nat.mod_lt _ (by decide)
  have h₁ : w.toNat / 2 ^ 8 % 256 < 256 := Nat.mod_lt _ (by decide)
  have h₂ : w.toNat / 2 ^ 16 % 256 < 256 := Nat.mod_lt _ (by decide)
  have h₃ : w.toNat / 2 ^ 24 % 256 < 256 := Nat.mod_lt _ (by decide)
  generalize w.toNat % 256 = x₀ at *
  generalize w.toNat / 2 ^ 8 % 256 = x₁ at *
  generalize w.toNat / 2 ^ 16 % 256 = x₂ at *
  generalize w.toNat / 2 ^ 24 % 256 = x₃ at *
  have e₁ : x₀ * 2 ^ 24 + x₁ * 2 ^ 16 = (x₀ * 2 ^ 8 + x₁) * 2 ^ 16 := by ring
  have e₂ : (x₀ * 2 ^ 8 + x₁) * 2 ^ 16 + x₂ * 2 ^ 8 = ((x₀ * 2 ^ 8 + x₁) * 2 ^ 8 + x₂) * 2 ^ 8 := by
    ring
  rw [Nat.mod_eq_of_lt (by omega), Nat.mod_eq_of_lt (by omega), Nat.mod_eq_of_lt (by omega),
    mul_or_eq_add (by omega), e₁, mul_or_eq_add (by omega), e₂, mul_or_eq_add (by omega)]

theorem htonl_hostWord (q : Quad) : htonl q.hostWord = q.netWord := by
  have ha := q.a.toNat_lt
  have hb := q.b.toNat_lt
  have hc := q.c.toNat_lt
  have hd := q.d.toNat_lt
  rw [← UInt32.toNat_inj, toNat_htonl, Quad.toNat_hostWord, Quad.toNat_netWord]
  simp only [leNat]
  generalize hn :
    q.d.toNat + 256 * (q.c.toNat + 256 * (q.b.toNat + 256 * (q.a.toNat + 256 * 0))) = n
  have h₀ : n % 256 = q.d.toNat := by omega
  have h₁ : n / 2 ^ 8 % 256 = q.c.toNat := by omega
  have h₂ : n / 2 ^ 16 % 256 = q.b.toNat := by omega
  have h₃ : n / 2 ^ 24 % 256 = q.a.toNat := by omega
  rw [h₀, h₁, h₂, h₃]
  omega

/-- An octet in decimal has no leading zero, so it is not read as octal. -/
theorem part?_octet : ∀ n < 256, part? (Nat.toDigits 10 n) = some n := by
  decide +kernel

theorem part?_toString (x : UInt8) : part? (toString x.toNat).toList = some x.toNat := by
  rw [Nat.toString_eq_repr, Nat.toList_repr]
  exact part?_octet x.toNat x.toNat_lt

theorem isDigit_of_mem_toString {n : ℕ} {c : Char} (h : c ∈ (toString n).toList) : c.isDigit := by
  rw [Nat.toString_eq_repr, Nat.toList_repr] at h
  exact Nat.isDigit_of_mem_toDigits (by decide) (by decide) h

theorem isWhitespace_of_isDigit {c : Char} (h : c.isDigit) : c.isWhitespace = false := by
  rw [Bool.eq_false_iff]
  intro hw
  simp only [Char.isWhitespace, Bool.or_eq_true, decide_eq_true_eq] at hw
  rcases hw with ((rfl | rfl) | rfl) | rfl
  all_goals exact absurd h (by decide)

/-- The four numbers of a dotted quad. -/
def numbers (q : Quad) : List (List Char) :=
  [(toString q.a.toNat).toList, (toString q.b.toNat).toList, (toString q.c.toNat).toList,
    (toString q.d.toNat).toList]

theorem isDigit_of_mem_numbers {q : Quad} {l : List Char} {c : Char} (hl : l ∈ numbers q)
    (hc : c ∈ l) : c.isDigit := by
  simp only [numbers, List.mem_cons, List.not_mem_nil, or_false] at hl
  rcases hl with rfl | rfl | rfl | rfl
  all_goals exact isDigit_of_mem_toString hc

theorem toList_dotted (q : Quad) : q.dotted.toList = ['.'].intercalate (numbers q) :=
  String.toList_intercalate

theorem takeWhile_dotted (q : Quad) :
    q.dotted.toList.takeWhile (fun c => !c.isWhitespace) = q.dotted.toList := by
  rw [List.takeWhile_eq_self_iff]
  intro c hc
  have hchar : c = '.' ∨ ∃ l ∈ numbers q, c ∈ l := by
    rw [toList_dotted] at hc
    simp only [numbers, List.intercalate, List.intersperse, List.flatten_cons, List.flatten_nil,
      List.mem_append, List.mem_singleton, List.not_mem_nil, or_false] at hc
    simp only [numbers, List.mem_cons, List.not_mem_nil, or_false, exists_eq_or_imp,
      exists_eq_left]
    tauto
  rcases hchar with rfl | ⟨l, hl, hcl⟩
  · rfl
  · rw [isWhitespace_of_isDigit (isDigit_of_mem_numbers hl hcl)]
    rfl

theorem splitOn_dotted (q : Quad) : q.dotted.toList.splitOn '.' = numbers q := by
  rw [toList_dotted]
  refine List.splitOn_intercalate '.' ?_ (List.cons_ne_nil _ _)
  intro l hl hdot
  exact absurd (isDigit_of_mem_numbers hl hdot) (by decide)

theorem hostWord?_octets (q : Quad) :
    hostWord? [q.a.toNat, q.b.toNat, q.c.toNat, q.d.toNat] = some (leNat [q.d, q.c, q.b, q.a]) := by
  unfold hostWord?
  dsimp only
  rw [if_pos ⟨q.a.toNat_lt, q.b.toNat_lt, q.c.toNat_lt, q.d.toNat_lt⟩]
  simp only [leNat]
  congr 1
  ring

/-- `inet_addr` of a dotted quad is its word in network order. -/
theorem inetAddr_dotted (q : Quad) : inetAddr q.dotted = some q.netWord := by
  have hparts : (numbers q).mapM part? = some [q.a.toNat, q.b.toNat, q.c.toNat, q.d.toNat] := by
    simp only [numbers, List.mapM_cons, List.mapM_nil, part?_toString]
    rfl
  unfold inetAddr
  rw [takeWhile_dotted, splitOn_dotted, hparts, Option.bind_eq_bind, Option.bind_some,
    hostWord?_octets, Option.bind_eq_bind, Option.bind_some]
  exact congrArg some (htonl_hostWord q)

theorem parse_dotted {q : Quad} (h : q ≠ .broadcast) : parse q.dotted = some ⟨q.netWord⟩ := by
  have hne : q.netWord ≠ 0xffffffff := fun he => h (Quad.netWord_injective he)
  unfold parse
  rw [inetAddr_dotted]
  dsimp only
  rw [if_neg hne]

end Ip4Addr

/-! ## The agents' database -/

section Agents

variable {agentsDb : UnorderedMap Ip4Addr AgentClient} {ip : Ip4Addr}

/-- The agent that came first under an address stays. -/
theorem lookup_addAgentClient (client : AgentClient) :
    (addAgentClient agentsDb client).lookup ip =
      (agentsDb.lookup ip).or (if client.agentIp = ip then some client else none) := by
  unfold addAgentClient
  cases hdb : agentsDb.lookup client.agentIp with
  | some old =>
    rw [UnorderedMap.emplace_of_lookup hdb]
    split
    · rename_i heq
      rw [← heq, hdb]
      rfl
    · rw [Option.or_none]
  | none =>
    rw [UnorderedMap.emplace_of_lookup_none hdb, UnorderedMap.lookup_insert']
    by_cases heq : client.agentIp = ip
    · rw [if_pos heq.symm, if_pos heq, ← heq, hdb]
      rfl
    · rw [if_neg (Ne.symm heq), if_neg heq, Option.or_none]

theorem lookup_foldl_addAgentClient (clients : List AgentClient) :
    (clients.foldl addAgentClient agentsDb).lookup ip =
      (agentsDb.lookup ip).or (clients.find? fun c => c.agentIp = ip) := by
  induction clients generalizing agentsDb with
  | nil => rw [List.foldl_nil, List.find?_nil, Option.or_none]
  | cons client clients ih =>
    rw [List.foldl_cons, ih, lookup_addAgentClient, Option.or_assoc, List.find?_cons]
    split
    · rename_i heq
      simp only [heq, decide_true, Option.some_or]
    · rename_i hne
      simp only [hne, decide_false, Option.none_or]

theorem mapM_agentClient? {agentIps : List String} {clients : List AgentClient}
    (h : agentIps.mapM agentClient? = some clients) :
    (∀ s ∈ agentIps, ∃ client ∈ clients, agentClient? s = some client) ∧
      ∀ client ∈ clients, client.agentPort = 4448 := by
  induction agentIps generalizing clients with
  | nil =>
    obtain rfl : [] = clients := Option.some.inj h
    exact ⟨fun s hs => absurd hs List.not_mem_nil, fun c hc => absurd hc List.not_mem_nil⟩
  | cons s agentIps ih =>
    simp only [List.mapM_cons, Option.bind_eq_bind, Option.bind_eq_some_iff] at h
    obtain ⟨client, hs, rest, hrest, hcons⟩ := h
    obtain rfl : client :: rest = clients := Option.some.inj hcons
    obtain ⟨hmem, hport⟩ := ih hrest
    constructor
    · intro s' hs'
      rcases List.mem_cons.mp hs' with rfl | hs'
      · exact ⟨client, List.mem_cons_self, hs⟩
      · obtain ⟨c, hc, hsc⟩ := hmem s' hs'
        exact ⟨c, List.mem_cons_of_mem client hc, hsc⟩
    · intro c hc
      rcases List.mem_cons.mp hc with rfl | hc
      · obtain ⟨_, _, rfl⟩ := Option.map_eq_some_iff.mp hs
        rfl
      · exact hport c hc

/-- Every agent that was configured is found under the address its text names. -/
theorem lookup_initAgentConnections {agentIps : List String} {s : String} (hs : s ∈ agentIps)
    (hip : Ip4Addr.parse s = some ip) (h : initAgentConnections agentIps = some agentsDb) :
    agentsDb.lookup ip = some ⟨ip, 4448⟩ := by
  obtain ⟨clients, hclients, hdb⟩ := Option.bind_eq_some_iff.mp h
  obtain rfl := Option.some.inj hdb
  obtain ⟨hmem, hport⟩ := mapM_agentClient? hclients
  obtain ⟨client, hclient, hsome⟩ := hmem s hs
  rw [agentClient?, hip, Option.map_some, Option.some.injEq] at hsome
  subst hsome
  rw [lookup_foldl_addAgentClient, AList.lookup_empty, Option.none_or]
  cases hfind : clients.find? fun c => c.agentIp = ip with
  | none => exact absurd (List.find?_eq_none.mp hfind _ hclient) (by simp)
  | some c =>
    have hip : c.agentIp = ip := by simpa using List.find?_some hfind
    have hc := hport c (List.mem_of_find?_eq_some hfind)
    rw [← hip, ← hc]

end Agents

/-! ## The four channels -/

/-- The container `cgroupId` of the node `q`. -/
def keyOf (cgroupId : UInt32) (q : Quad) : ContainerId := ⟨cgroupId, .fromNet q.netWord⟩

theorem keyOf_injective {cgroupId cgroupId' : UInt32} {q q' : Quad}
    (h : keyOf cgroupId q = keyOf cgroupId' q') : cgroupId = cgroupId' ∧ q = q' := by
  obtain ⟨hcgroup, hip⟩ := ContainerId.mk.inj h
  exact ⟨hcgroup, Quad.netWord_injective (Ip4Addr.mk.inj hip)⟩

/-- `operator==` holds and the hashes agree, whatever the hash of a word is. -/
def SameKey (id id' : ContainerId) : Prop :=
  id = id' ∧ ∀ hashWord, id.hash hashWord = id'.hash hashWord

theorem SameKey.of_eq {id id' : ContainerId} (h : id = id') : SameKey id id' :=
  ⟨h, fun hashWord => congrArg (ContainerId.hash hashWord) h⟩

/-- Every path that names the container `cgroupId` of the node `q` arrives at `id`. A packet is
56 arbitrary bytes with the container's cgroup id in them; on the TCP paths its own `client_ip` is
not looked at. -/
structure NamedBy (cgroupId : UInt32) (q : Quad) (id : ContainerId) : Prop where
  /-- `_INIT_`: the id the constructor gives the new instance. -/
  init : ∀ packet : Buff, packet.msg.cgroupId = cgroupId → ∀ fd quota nrThrottled now,
    let req := packet.msg.setIpFromNet q.netWord
    SameKey (SubContainer.new req.cgroupId (Ip4Addr.fromNet q.netWord).toUInt32 fd quota
      nrThrottled now).cId id
  /-- The instance is in the queue of that id once `handle_req` is done with the request. -/
  registered : ∀ packet : Buff, packet.msg.cgroupId = cgroupId → packet.msg.reqType = initReq →
    ∀ env fd m, ∃ sc, SameKey sc.cId id ∧
      ((tcpEvent env q.netWord fd (packet.msg.setIpFromNet q.netWord)).handle.run m).state.ec.back?
        id = some sc
  /-- `_MEM_`. -/
  mem : ∀ packet : Buff, packet.msg.cgroupId = cgroupId →
    SameKey (packet.msg.setIpFromNet q.netWord).containerId id
  /-- A CPU report over UDP, with the address in host order. -/
  cpu : ∀ packet : Buff, packet.msg.cgroupId = cgroupId →
    packet.msg.clientIp = ⟨q.hostWord⟩ → SameKey (handleClientReqsUdp packet.1).containerId id
  /-- `ReportPodSpec`. -/
  spec : ∀ dockerId, ∃ id', SameKey id' id ∧
    (⟨dockerId, cgroupId.toInt32, q.dotted⟩ : ExportPodSpec).containerId? = some id'
  /-- The agent configured with the address. -/
  agent : ∀ agentIps agentsDb, q.dotted ∈ agentIps → initAgentConnections agentIps = some agentsDb →
    agentsDb.lookup id.serverIp = some ⟨id.serverIp, 4448⟩

theorem handleClientReqsUdp_packet (packet : Buff) :
    handleClientReqsUdp packet.1 = packet.msg.setIpFromHost packet.msg.clientIp.toUInt32 := by
  have htake : packet.1.take 56 = packet.1 := List.take_of_length_le packet.2.le
  have hbuff :
      Buff.zero.overwrite (packet.1.take 56) (List.length_take_le 56 packet.1) = packet := by
    refine (Buff.overwrite_of_whole _ (by rw [htake]; exact packet.2)).trans ?_
    exact Subtype.ext htake
  unfold handleClientReqsUdp
  rw [hbuff]

theorem ElasticContainer.back?_register {ec : ElasticContainer} {sc : SubContainer}
    {agent : Option AgentClient} :
    ∃ sc', (ec.register sc agent).back? sc.cId = some sc' ∧ sc'.cId = sc.cId := by
  cases agent with
  | none => exact ⟨sc, back?_insertSc, rfl⟩
  | some agent =>
    have hb : ((ec.insertSc sc).addToScAcMap sc.cId agent).back? sc.cId = some sc := back?_insertSc
    exact ⟨_, back?_modifyBack hb, rfl⟩

/-- The newest instance under `id` has this id. -/
def HasNewest (id : ContainerId) (m : Manager) : Prop :=
  ∃ sc, sc.cId = id ∧ m.ec.back? id = some sc

theorem wp_handleAddCgroupToEc_newest {m : Manager} {env : Env} {req : Msg} {ip : UInt32}
    {fd : Int} :
    wp (Manager.handleAddCgroupToEc env req ip fd) (fun _ => HasNewest ⟨req.cgroupId, .fromNet ip⟩)
      (fun _ => HasNewest ⟨req.cgroupId, .fromNet ip⟩) m := by
  refine Manager.wp_handleAddCgroupToEc fun cpu quota m' hquiet => ?_
  obtain ⟨sc₁, hb₁, hid₁⟩ : ∃ sc', (m.admitted cpu
      (.new req.cgroupId ip fd quota req.request env.now)).ec.back? ⟨req.cgroupId, .fromNet ip⟩ =
        some sc' ∧ sc'.cId = ⟨req.cgroupId, .fromNet ip⟩ :=
    ElasticContainer.back?_register
  obtain ⟨sc₂, hb₂, hid₂⟩ := hquiet.back hb₁
  have hid : sc₂.cId = sc₁.cId := congrArg Prod.fst hid₂
  exact ⟨sc₂, hid.trans hid₁, hb₂⟩

theorem hasNewest_tcpEvent {m : Manager} {env : Env} {req : Msg} {clientIp : UInt32} {fd : Int}
    (ht : req.reqType = initReq) :
    HasNewest ⟨req.cgroupId, .fromNet clientIp⟩
      ((tcpEvent env clientIp fd req).handle.run m).state := by
  refine wp_state_iff.mp ?_
  unfold tcpEvent Event.handle
  dsimp only
  rw [wp_inThread, wp_bind, handleReq_of_init ht]
  exact wp_handleAddCgroupToEc_newest

/-- **One key on every channel, and another one for every other container.** -/
theorem namedBy_keyOf (cgroupId : UInt32) (q : Quad) (h : q ≠ .broadcast) :
    NamedBy cgroupId q (keyOf cgroupId q) ∧
      ∀ cgroupId' q', (cgroupId', q') ≠ (cgroupId, q) →
        keyOf cgroupId' q' ≠ keyOf cgroupId q := by
  have hparse := Ip4Addr.parse_dotted h
  refine ⟨⟨?_, ?_, ?_, ?_, ?_, ?_⟩, ?_⟩
  · rintro packet rfl fd quota nrThrottled now
    exact .of_eq rfl
  · rintro packet rfl htype env fd m
    have hreq : (packet.msg.setIpFromNet q.netWord).reqType = initReq := htype
    obtain ⟨sc, hid, hb⟩ := hasNewest_tcpEvent hreq
    exact ⟨sc, .of_eq hid, hb⟩
  · rintro packet rfl
    exact .of_eq rfl
  · rintro packet rfl hip
    refine .of_eq ?_
    rw [handleClientReqsUdp_packet, hip]
    show ContainerId.mk _ (Ip4Addr.mk (Ip4Addr.htonl q.hostWord)) = _
    rw [Ip4Addr.htonl_hostWord]
    rfl
  · intro dockerId
    refine ⟨_, .of_eq rfl, ?_⟩
    unfold ExportPodSpec.containerId?
    rw [hparse, Option.map_some, UInt32.toUInt32_toInt32]
    rfl
  · exact fun agentIps agentsDb hmem hinit => lookup_initAgentConnections hmem hparse hinit
  · intro cgroupId' q' hne heq
    obtain ⟨rfl, rfl⟩ := keyOf_injective heq
    exact hne rfl

theorem namedBy_loopback :
    keyOf 23 ⟨127, 0, 0, 1⟩ = ⟨23, node⟩ ∧ Quad.dotted ⟨127, 0, 0, 1⟩ = "127.0.0.1" ∧
      NamedBy 23 ⟨127, 0, 0, 1⟩ (keyOf 23 ⟨127, 0, 0, 1⟩) :=
  ⟨by decide, by decide, (namedBy_keyOf 23 ⟨127, 0, 0, 1⟩ (by decide)).1⟩

end EcGcm
