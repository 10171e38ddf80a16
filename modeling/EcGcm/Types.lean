import EcGcm.Lib.Handler
import EcGcm.Lib.Rounding
import EcGcm.Lib.UnorderedMap

/-!
# Names, messages and the outside world

`om.h`, `types/msg.h`, `SubContainer.h` (`ContainerId`), `Agents/`.

A `ContainerId` in the source also has a `docker_id` field, which neither `operator==` nor the
hash looks at and which is set on the container's own copy only, never on a map key. Here the
name is the pair that is compared, and the docker id is a field of the container
(`EcGcm/SubContainer.lean`).
-/

set_option autoImplicit false

namespace EcGcm

/-- `om::net::ip4_addr`: one word, in network order. -/
structure Ip4Addr where
  addr : UInt32
  deriving DecidableEq, Repr

namespace Ip4Addr

def fromNet (addr : UInt32) : Ip4Addr := ⟨addr⟩

/-! `inet_addr`, on which `ip4_addr::parse` rests: up to four numbers separated by dots, each
decimal, octal (`0…`) or hexadecimal (`0x…`); the last one fills the bytes that are left. What
follows a blank is ignored. -/

def digit? (base : ℕ) (c : Char) : Option ℕ :=
  let v :=
    if '0' ≤ c ∧ c ≤ '9' then c.toNat - '0'.toNat
    else if 'a' ≤ c ∧ c ≤ 'f' then c.toNat - 'a'.toNat + 10
    else if 'A' ≤ c ∧ c ≤ 'F' then c.toNat - 'A'.toNat + 10
    else base
  if v < base then some v else none

def number? (base : ℕ) (cs : List Char) : Option ℕ :=
  cs.foldlM (fun n c => (digit? base c).map (n * base + ·)) 0

def part? : List Char → Option ℕ
  | [] => none
  | '0' :: 'x' :: c :: cs => number? 16 (c :: cs)
  | '0' :: 'X' :: c :: cs => number? 16 (c :: cs)
  | '0' :: cs => number? 8 cs
  | cs => number? 10 cs

def hostWord? : List ℕ → Option ℕ
  | [a] => if a < 2 ^ 32 then some a else none
  | [a, b] => if a < 256 ∧ b < 2 ^ 24 then some (a * 2 ^ 24 + b) else none
  | [a, b, c] =>
    if a < 256 ∧ b < 256 ∧ c < 2 ^ 16 then some (a * 2 ^ 24 + b * 2 ^ 16 + c) else none
  | [a, b, c, d] =>
    if a < 256 ∧ b < 256 ∧ c < 256 ∧ d < 256 then
      some (a * 2 ^ 24 + b * 2 ^ 16 + c * 2 ^ 8 + d)
    else none
  | _ => none

/-- `htonl` on a little-endian host. -/
def htonl (w : UInt32) : UInt32 :=
  (w &&& 0xff) <<< 24 ||| ((w >>> 8) &&& 0xff) <<< 16 |||
    ((w >>> 16) &&& 0xff) <<< 8 ||| ((w >>> 24) &&& 0xff)

def fromHost (addr : UInt32) : Ip4Addr := ⟨htonl addr⟩

/-- `to_uint32`: the word as it is, not converted. -/
def toUInt32 (ip : Ip4Addr) : UInt32 := ip.addr

def inetAddr (s : String) : Option UInt32 := do
  let parts ← ((s.toList.takeWhile fun c => !c.isWhitespace).splitOn '.').mapM part?
  let w ← hostWord? parts
  return htonl (UInt32.ofNat w)

/-- `ip4_addr::parse`; `none` is the `std::invalid_argument` it throws. The result of a failed
`inet_addr` is also the word of 255.255.255.255. -/
def parse (s : String) : Option Ip4Addr :=
  match inetAddr s with
  | none => none
  | some a => if a = 0xffffffff then none else some ⟨a⟩

end Ip4Addr

/-- `SubContainer::ContainerId`, as compared by `operator==`. -/
structure ContainerId where
  cgroupId : UInt32
  serverIp : Ip4Addr
  deriving DecidableEq, Repr

/-- `std::hash<ContainerId>`; the hash of a `uint32_t` is the library's. -/
def ContainerId.hash (hashWord : UInt32 → UInt64) (id : ContainerId) : UInt64 :=
  hashWord id.cgroupId ^^^ id.serverIp.toUInt32.toUInt64

/-- `ContainerId()`: what a failed docker-id lookup returns. -/
def ContainerId.default : ContainerId := ⟨0, ⟨0⟩⟩

/-- `rpc::AgentClient`, the stub for the agent of one node; the address identifies it. -/
structure AgentClient where
  agentIp : Ip4Addr
  agentPort : UInt16
  deriving DecidableEq, Repr

/-! ## Messages -/

/-- `msg_t`. Its `sock_addr` is read by nothing. -/
structure Msg where
  clientIp : Ip4Addr
  cgroupId : UInt32
  reqType : UInt32
  rsrcAmnt : UInt64
  request : UInt32
  runtimeRemaining : UInt64
  cpustatSeqNum : UInt64
  deriving DecidableEq, Repr

/-- `_CPU_`. -/
def cpuReq : UInt32 := 0

/-- `_MEM_`. -/
def memReq : UInt32 := 1

/-- `_INIT_`. -/
def initReq : UInt32 := 2

def Msg.setIpFromNet (req : Msg) (ip : UInt32) : Msg := { req with clientIp := .fromNet ip }

def Msg.setIpFromHost (req : Msg) (ip : UInt32) : Msg := { req with clientIp := .fromHost ip }

/-- The container a message names, as the handlers build it. -/
def Msg.containerId (req : Msg) : ContainerId := ⟨req.cgroupId, req.clientIp⟩

/-- The return codes of the handlers: `__FAILED__` and the `__ALLOC_…__` constants. -/
inductive AllocRet
  | failed
  | allocFailed
  | allocSuccess
  | allocInit
  | allocMemFailed
  deriving DecidableEq, Repr

/-- The flag `set_sc_quota_syscall` sends along with a quota. -/
inductive Change
  | incr
  | decr
  deriving DecidableEq, Repr

/-- `ContainerQuotaRequest`, with the agent it is sent to. -/
structure ContainerQuotaRequest where
  agent : AgentClient
  cgroupId : UInt32
  newQuota : UInt64
  resizeFlag : Change
  sequenceNum : UInt32
  deriving DecidableEq, Repr

/-! ## The world during one step -/

/-- What one step reads from outside the process: the clock, what its RPCs come to, and the
cAdvisor readings; and how the machine rounds. Within a step each call is made at most once for a
container, so a function of the container is a full account of the answers. -/
structure Env where
  /-- `high_resolution_clock::now()`, in nanoseconds. -/
  now : Int
  /-- How the processor rounds a `double`. -/
  rounding : Rounding
  /-- `AgentClient::updateContainerQuota`; 0 is success. -/
  updateContainerQuota : ContainerId → Int
  /-- `AgentClient::resizeMemoryLimitPages`; 0 is success, `none` an RPC that fails. -/
  resizeMemoryLimitPages : ContainerId → Option Int
  /-- `CAdvisor::getContMemUsage`, in bytes; `none` is an exception. -/
  getContMemUsage : ContainerId → Option UInt64
  /-- `CAdvisor::getContMemLimit`, in bytes; `none` is an exception. -/
  getContMemLimit : ContainerId → Option UInt64

end EcGcm
