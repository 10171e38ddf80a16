import EcGcm.Lib.Bytes
import EcGcm.System

/-!
# The sockets and the agents

`Server.cpp`, `types/msg.h`, `Agents/AgentClientDB.cpp`, `GlobalControlManager.cpp`.

Both receive functions look at their buffer as a `msg_t`, on the little-endian machine the
structure is laid out for:

    client_ip 0   cgroup_id 4   req_type 8   rsrc_amnt 16   request 24
    runtime_remaining 32   cpustat_seq_num 40   sock_addr 48

The TCP loop keeps one buffer for the whole connection. It overwrites the front of it with
whatever a `read` returned, writes the peer's address over `client_ip` in the same buffer, and
calls `handle_req`, which has the request as `const`. How many bytes came is only compared
with 0.
-/

set_option autoImplicit false

namespace EcGcm

open Bytes

/-- `char buff_in[__HANDLE_REQ_BUFF__]`, and also the bytes of one `msg_t`. -/
abbrev Buff := {bytes : List UInt8 // bytes.length = 56}

/-- What a `read` into the buffer returns when it returns something. -/
abbrev Chunk := {bytes : List UInt8 // 0 < bytes.length ∧ bytes.length ≤ 56}

namespace Buff

/-- `buff_in[…] = {0}`. -/
def zero : Buff := ⟨List.replicate 56 0, List.length_replicate⟩

/-- The bytes go to the front of the buffer; the rest stays what it was. -/
def overwrite (buff : Buff) (bytes : List UInt8) (h : bytes.length ≤ 56) : Buff :=
  ⟨bytes ++ buff.1.drop bytes.length, by
    rw [List.length_append, List.length_drop, buff.2]
    omega⟩

def uint32At (buff : Buff) (offset : ℕ) : UInt32 :=
  .ofNat (leNat ((buff.1.drop offset).take 4))

def uint64At (buff : Buff) (offset : ℕ) : UInt64 :=
  .ofNat (leNat ((buff.1.drop offset).take 8))

/-- `reinterpret_cast<msg_t*>(buff_in)`. -/
def msg (buff : Buff) : Msg where
  clientIp := ⟨buff.uint32At 0⟩
  cgroupId := buff.uint32At 4
  reqType := buff.uint32At 8
  rsrcAmnt := buff.uint64At 16
  request := buff.uint32At 24
  runtimeRemaining := buff.uint64At 32
  cpustatSeqNum := buff.uint64At 40

/-- `req->set_ip_from_net(ip)` for a `req` that points into the buffer. -/
def setIpFromNet (buff : Buff) (ip : UInt32) : Buff :=
  buff.overwrite (leBytes 4 (Ip4Addr.fromNet ip).addr.toNat) (by rw [length_leBytes]; decide)

end Buff

/-- The bytes of a message, as a client writes them; the gaps of the structure and `sock_addr`
are 0. -/
def Msg.bytes (req : Msg) : Buff :=
  ⟨leBytes 4 req.clientIp.addr.toNat ++ leBytes 4 req.cgroupId.toNat ++
    leBytes 4 req.reqType.toNat ++ leBytes 4 0 ++ leBytes 8 req.rsrcAmnt.toNat ++
    leBytes 4 req.request.toNat ++ leBytes 4 0 ++ leBytes 8 req.runtimeRemaining.toNat ++
    leBytes 8 req.cpustatSeqNum.toNat ++ leBytes 8 0, by
    simp only [List.length_append, length_leBytes]⟩

/-! ## TCP -/

/-- One turn of the receive loop, as far as it is decided outside: what `read` returned, what
`handle_req` came back with and left in `res` (`none` when it did not come back), and whether the
reply, if there is one, could be written. -/
structure Turn where
  chunk : Chunk
  ret : Option (AllocRet × Msg)
  written : Bool

/-- The results that are answered on the socket. -/
def repliesTo : AllocRet → Msg → Bool
  | .allocInit, _ => true
  | .allocSuccess, res => res.request = 0
  | .allocMemFailed, _ => true
  | _, _ => false

/-- The loop comes round to another `read`. -/
def Turn.comesRound (turn : Turn) : Bool :=
  match turn.ret with
  | none => false
  | some (ret, res) => !repliesTo ret res || turn.written

/-- The loop of `handle_client_reqs_tcp`: the requests it passes to `handle_req`. -/
def handleClientReqsTcp (clientIp : UInt32) : Buff → List Turn → List Msg
  | _, [] => []
  | buffIn, turn :: turns =>
    let buffIn := (buffIn.overwrite turn.chunk.1 turn.chunk.2.2).setIpFromNet clientIp
    buffIn.msg :: if turn.comesRound then handleClientReqsTcp clientIp buffIn turns else []

/-- The turns of one connection: each but the last one led to the next. -/
structure Connection where
  turns : List Turn
  made : ∀ turn ∈ turns.dropLast, turn.comesRound

/-- The bytes a connection has read, in the pieces they came in. -/
def Connection.chunks (conn : Connection) : List (List UInt8) := conn.turns.map (·.chunk.1)

/-- What `handle_req` is called with on a connection from `clientIp`, from the first read on. -/
def Connection.dispatched (conn : Connection) (clientIp : UInt32) : List Msg :=
  handleClientReqsTcp clientIp .zero conn.turns

/-- A request of the connection, as a step of the controller. -/
def tcpEvent (env : Env) (clientIp : UInt32) (clientFd : Int) (req : Msg) : Event :=
  .message env req (Ip4Addr.fromNet clientIp).toUInt32 clientFd

/-! ## UDP -/

/-- `handle_client_reqs_udp`: the request. The buffer is a new one for each datagram. -/
def handleClientReqsUdp (datagram : List UInt8) : Msg :=
  let req := (Buff.zero.overwrite (datagram.take 56) (List.length_take_le 56 datagram)).msg
  req.setIpFromHost req.clientIp.toUInt32

/-! ## The agents -/

/-- `AgentClientDB::add_agent_client`. -/
def addAgentClient (agentsDb : UnorderedMap Ip4Addr AgentClient) (client : AgentClient) :
    UnorderedMap Ip4Addr AgentClient :=
  agentsDb.emplace client.agentIp client

/-- The client of `Agent(ip)`; `none` is the exception of `from_string`. -/
def agentClient? (ip : String) : Option AgentClient := (Ip4Addr.parse ip).map (⟨·, 4448⟩)

/-- The constructor of `GlobalControlManager` and `init_agent_connections`: the database for the
configured addresses. -/
def initAgentConnections (agentIps : List String) :
    Option (UnorderedMap Ip4Addr AgentClient) := do
  let agents ← agentIps.mapM agentClient?
  return agents.foldl addAgentClient ∅

end EcGcm
