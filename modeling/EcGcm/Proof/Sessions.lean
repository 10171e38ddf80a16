import EcGcm.Proof.Framing
import EcGcm.Proof.Quiet

/-!
# Connections: who is answered, for what, and in whose name

`serve_tcp` accepts a connection and starts a detached thread for it, `handle_client_reqs_tcp`. The
peer's address reaches the thread through `server_sock_tcp.addr`, which every `accept` overwrites;
the thread copies it when it gets to run. From then on it reads, hands each request to `handle_req`
and writes the reply, if there is one.

Here the acceptor, the connections and everything else that drives the controller take their steps
in any order. What one connection thread does between two reads is one step: the handler is one step
of the controller (`EcGcm/System.lean`), and the reply goes to a socket that nobody else writes.

* `answered_of_run`: on every connection the replies are, in order and one for one, those to the
  requests that ask for one. Reports and requests of an unknown type are not answered.
* `dispatched_of_replay`: the requests of a connection are those that the loop of `Server.lean`
  dispatches for what is read on it, whatever happens on the others.
* `attributed_of_run`: the requests of a connection carry the address of its peer, provided that
  its thread copies the address before the next connection is accepted. `misattributed` is what
  happens when one more connection is accepted first.
-/

set_option autoImplicit false

namespace EcGcm

open Handler Manager

/-! ## The threads -/

/-- Where the thread of a connection is. -/
inductive SessionPoint
  /-- `auto client_ip = arguments->cliaddr->sin_addr.s_addr` is still to come. -/
  | starting
  | serving (clientIp : UInt32) (buffIn : Buff)
  /-- `handle_req` does not come back. -/
  | hanging
  /-- The loop has been left. -/
  | stopped
  deriving DecidableEq

/-- A connection: the address that `accept` returned with it, which the source keeps nowhere, and
the requests that have been handled and the replies that have been written on it so far. -/
structure Session where
  clifd : Int
  peer : UInt32
  point : SessionPoint
  requests : List Msg
  replies : List Msg
  deriving DecidableEq

/-- The process, as its sockets see it. -/
structure TcpServer where
  m : Manager
  /-- `server_sock_tcp.addr`. -/
  addr : UInt32
  sessions : List Session
  deriving DecidableEq

namespace TcpServer

inductive Event
  /-- `accept` returns the socket `clifd`. -/
  | accept (clifd : Int) (peer : UInt32)
  /-- The thread of a connection copies the address. -/
  | copyAddress (i : ℕ)
  /-- It reads, has the request handled and writes the reply, unless writing fails. -/
  | read (i : ℕ) (chunk : Chunk) (env : Env) (written : Bool)
  /-- `read` returns 0 or fails. -/
  | close (i : ℕ)
  /-- Everything else. -/
  | other (e : EcGcm.Event)

end TcpServer

namespace Session

/-- The session after `handle_req` has come back with `ret` and `res`. -/
def handled (c : Session) (clientIp : UInt32) (buffIn : Buff) (ret : AllocRet × Msg)
    (written : Bool) : Session :=
  let requests := c.requests ++ [buffIn.msg]
  if repliesTo ret.1 ret.2 then
    if written then
      { c with
        point := .serving clientIp buffIn
        requests := requests
        replies := c.replies ++ [ret.2] }
    else { c with point := .stopped, requests := requests }
  else { c with point := .serving clientIp buffIn, requests := requests }

end Session

namespace TcpServer

/-- One turn of the loop of `handle_client_reqs_tcp`. -/
def turn (s : TcpServer) (i : ℕ) (c : Session) (clientIp : UInt32) (buffIn : Buff) (chunk : Chunk)
    (env : Env) (written : Bool) : Option TcpServer :=
  let buffIn := (buffIn.overwrite chunk.1 chunk.2.2).setIpFromNet clientIp
  match (handleReq env buffIn.msg (Ip4Addr.fromNet clientIp).toUInt32 c.clifd).run s.m with
  | .ret ret m =>
    some { s with m := m, sessions := s.sessions.set i (c.handled clientIp buffIn ret written) }
  | .halt .hang m =>
    some { s with m := m, sessions := s.sessions.set i { c with point := .hanging } }
  | .halt _ _ => none

def next : Event → TcpServer → Option TcpServer
  | .accept clifd peer, s =>
    some { s with addr := peer, sessions := s.sessions ++ [⟨clifd, peer, .starting, [], []⟩] }
  | .copyAddress i, s => s.sessions[i]?.bind fun c =>
    match c.point with
    | .starting =>
      some { s with sessions := s.sessions.set i { c with point := .serving s.addr .zero } }
    | _ => none
  | .read i chunk env written, s => s.sessions[i]?.bind fun c =>
    match c.point with
    | .serving clientIp buffIn => s.turn i c clientIp buffIn chunk env written
    | _ => none
  | .close i, s => s.sessions[i]?.bind fun c =>
    match c.point with
    | .serving _ _ => some { s with sessions := s.sessions.set i { c with point := .stopped } }
    | _ => none
  | .other e, s => (gcm.next e s.m).map fun m => { s with m := m }

/-- The acceptor, the connections and the rest of the controller. -/
def system : System TcpServer Event := ⟨fun _ _ => True, next⟩

instance (s : TcpServer) (e : Event) : Decidable (system.enabled s e) := .isTrue trivial

/-- Nobody has connected. -/
def start (m : Manager) : TcpServer := ⟨m, 0, []⟩

end TcpServer

/-! ## What a request comes back with -/

namespace Msg

/-- A memory request or an `_INIT_`. -/
def asksReply (req : Msg) : Bool := req.reqType = memReq || req.reqType = initReq

/-- `res` differs from `req` in nothing but the amount and the flag. -/
def Answers (req res : Msg) : Prop :=
  res = { req with rsrcAmnt := res.rsrcAmnt, request := res.request }

instance (req res : Msg) : Decidable (Answers req res) := inferInstanceAs (Decidable (_ = _))

end Msg

/-- What `handle_req` comes back with: a reply to those that ask for one, and to nobody else. -/
def Replied (req : Msg) (ret : AllocRet × Msg) : Prop :=
  req.Answers ret.2 ∧ repliesTo ret.1 ret.2 = req.asksReply

section Replied

variable {env : Env} {req : Msg} {hostIp : UInt32} {clifd : Int}

theorem yields_grantMemory {memoryAvailable : Int64} (ht : req.reqType = memReq) :
    Yields (Replied req) (grantMemory req memoryAvailable) := by
  unfold grantMemory
  refine yields_bind fun m => yields_bind fun _ => yields_bind fun _ => yields_bind fun _ => ?_
  refine yields_pure ⟨rfl, ?_⟩
  unfold Msg.asksReply
  rw [ht]
  rfl

theorem yields_handleMemReq (ht : req.reqType = memReq) :
    Yields (Replied req) (handleMemReq env req clifd) := by
  have hfailed : Replied req (.allocMemFailed, { req with rsrcAmnt := 0 }) := by
    refine ⟨rfl, ?_⟩
    unfold Msg.asksReply
    rw [ht]
    rfl
  unfold handleMemReq
  refine yields_ite (yields_pure hfailed) (yields_locked ?_)
  unfold serveMemReq
  refine yields_bind fun m => ?_
  refine yields_ite (yields_grantMemory ht) (yields_bind fun reclaimedMem => ?_)
  refine yields_ite ?_ (yields_pure hfailed)
  refine yields_ite (yields_bind fun _ => ?_) ?_
  · exact yields_bind fun _ => yields_bind fun m => yields_grantMemory ht
  · exact yields_bind fun _ => yields_bind fun m => yields_grantMemory ht

theorem yields_handleCpuUsageReport (ht : req.reqType = cpuReq) :
    Yields (Replied req) (handleCpuUsageReport env req) := by
  have hdone : Replied req (.allocSuccess, { req with request := 1 }) := by
    refine ⟨rfl, ?_⟩
    unfold Msg.asksReply
    rw [ht]
    rfl
  unfold handleCpuUsageReport
  refine yields_ite ?_ (yields_bind fun sc => yields_bind fun m => ?_)
  · exact yields_pure ⟨rfl, by unfold Msg.asksReply; rw [ht]; rfl⟩
  · split
    · exact yields_bind fun _ => yields_pure hdone
    · refine yields_bind fun _ => yields_bind fun _ => yields_bind fun _ => yields_bind fun m => ?_
      split
      · exact yields_bind fun _ => yields_pure hdone
      · exact yields_bind fun _ => yields_bind fun _ => yields_pure hdone

theorem yields_handleAddCgroupToEc (ht : req.reqType = initReq) :
    Yields (Replied req) (handleAddCgroupToEc env req hostIp clifd) := by
  have hdone : Replied req (.allocInit, { req with request := req.request + 1 }) := by
    refine ⟨rfl, ?_⟩
    unfold Msg.asksReply
    rw [ht]
    rfl
  unfold handleAddCgroupToEc
  refine yields_bind fun r => yields_bind fun _ => yields_bind fun _ => yields_bind fun _ => ?_
  dsimp only
  split
  · exact yields_bind fun sc => yields_bind fun _ => yields_pure hdone
  · exact yields_pure hdone

/-- **Every request that is handled is answered if it asks for it, and only then.** -/
theorem yields_handleReq : Yields (Replied req) (handleReq env req hostIp clifd) := by
  unfold handleReq
  split
  · rename_i ht
    exact yields_handleMemReq ht
  · rename_i hmem
    split
    · rename_i ht
      exact yields_handleCpuUsageReport ht
    · rename_i hcpu
      split
      · rename_i ht
        exact yields_handleAddCgroupToEc ht
      · rename_i hinit
        refine yields_pure ⟨rfl, ?_⟩
        unfold Msg.asksReply
        rw [decide_eq_false hmem, decide_eq_false hinit]
        rfl

end Replied

/-! ## What a step can do -/

namespace TcpServer

/-- What the thread of a connection can do to it, when `server_sock_tcp.addr` is `addr`. -/
inductive SessionStep (addr : UInt32) (c : Session) : Session → Prop
  | copied (hc : c.point = .starting) : SessionStep addr c { c with point := .serving addr .zero }
  | handled {clientIp : UInt32} {buffIn : Buff} (chunk : Chunk) {ret : AllocRet × Msg}
      (written : Bool) (hc : c.point = .serving clientIp buffIn)
      (hret : Replied ((buffIn.overwrite chunk.1 chunk.2.2).setIpFromNet clientIp).msg ret) :
    SessionStep addr c
      (c.handled clientIp ((buffIn.overwrite chunk.1 chunk.2.2).setIpFromNet clientIp) ret written)
  | hung {clientIp : UInt32} {buffIn : Buff} (hc : c.point = .serving clientIp buffIn) :
    SessionStep addr c { c with point := .hanging }
  | stopped {clientIp : UInt32} {buffIn : Buff} (hc : c.point = .serving clientIp buffIn) :
    SessionStep addr c { c with point := .stopped }

/-- What an event can do to the connections. -/
inductive Steps (s : TcpServer) : Event → TcpServer → Prop
  | accepted (clifd : Int) (peer : UInt32) :
    Steps s (.accept clifd peer)
      { s with addr := peer, sessions := s.sessions ++ [⟨clifd, peer, .starting, [], []⟩] }
  | moved {e : Event} {i : ℕ} {c c' : Session} {m : Manager} (hi : s.sessions[i]? = some c)
      (hc : SessionStep s.addr c c') (hm : gcm.Run s.m m) :
    Steps s e { s with m := m, sessions := s.sessions.set i c' }
  | elsewhere {e : Event} {m : Manager} (hm : gcm.Run s.m m) : Steps s e { s with m := m }

variable {s s' : TcpServer} {e : Event}

theorem turn_cases {i : ℕ} {c : Session} {clientIp : UInt32} {buffIn : Buff} {chunk : Chunk}
    {env : Env} {written : Bool} (hi : s.sessions[i]? = some c)
    (hc : c.point = .serving clientIp buffIn)
    (h : s.turn i c clientIp buffIn chunk env written = some s') : Steps s e s' := by
  unfold turn at h
  dsimp only at h
  generalize hreq : ((buffIn.overwrite chunk.1 chunk.2.2).setIpFromNet clientIp).msg = req at h
  have hgcm : ∀ m, ((handleReq env req (Ip4Addr.fromNet clientIp).toUInt32 c.clifd).run
      s.m).uncaught.resume = some m → gcm.Run s.m m := by
    intro m hresume
    exact .single ⟨.message env req (Ip4Addr.fromNet clientIp).toUInt32 c.clifd, trivial,
      resume_inThread_discard.trans hresume⟩
  cases hrun : (handleReq env req (Ip4Addr.fromNet clientIp).toUInt32 c.clifd).run s.m with
  | ret ret m =>
    rw [hrun] at h
    cases h
    refine .moved hi (.handled chunk written hc ?_) (hgcm m (by rw [hrun]; rfl))
    rw [hreq]
    exact yields_handleReq.of_run hrun
  | halt reason m =>
    rw [hrun] at h
    cases reason with
    | hang =>
      cases h
      exact .moved hi (.hung hc) (hgcm m (by rw [hrun]; rfl))
    | exit => cases h
    | throw => cases h
    | undef => cases h

theorem next_cases (h : next e s = some s') : Steps s e s' := by
  cases e with
  | accept clifd peer =>
    cases h
    exact .accepted clifd peer
  | copyAddress i =>
    obtain ⟨c, hi, hc⟩ := Option.bind_eq_some_iff.mp h
    split at hc
    · rename_i hpoint
      cases hc
      exact .moved hi (.copied hpoint) .refl
    · cases hc
  | read i chunk env written =>
    obtain ⟨c, hi, hc⟩ := Option.bind_eq_some_iff.mp h
    split at hc
    · rename_i hpoint
      exact turn_cases hi hpoint hc
    · cases hc
  | close i =>
    obtain ⟨c, hi, hc⟩ := Option.bind_eq_some_iff.mp h
    split at hc
    · rename_i hpoint
      cases hc
      exact .moved hi (.stopped hpoint) .refl
    · cases hc
  | other e =>
    obtain ⟨m, hm, rfl⟩ := Option.map_eq_some_iff.mp h
    exact .elsewhere (.single ⟨e, trivial, hm⟩)

/-- Every run of the process is one of the controller. -/
theorem run_gcm (hrun : system.Run s s') : gcm.Run s.m s'.m := by
  have hself : gcm.Run s.m s.m := .refl
  refine System.invariant (I := fun t => gcm.Run s.m t.m) hself (fun e t t' ht _ hnext => ?_) hrun
  cases next_cases hnext with
  | accepted clifd peer => exact ht
  | moved hi hc hm => exact ht.trans hm
  | elsewhere hm => exact ht.trans hm

/-- **The rule for what holds of every connection.** -/
theorem each_of_run {I : Session → Prop} {m : Manager}
    (hnew : ∀ clifd peer, I ⟨clifd, peer, .starting, [], []⟩)
    (hstep : ∀ addr c c', SessionStep addr c c' → I c → I c')
    (hrun : system.Run (start m) s) : ∀ c ∈ s.sessions, I c := by
  refine System.invariant (I := fun t => ∀ c ∈ t.sessions, I c)
    (fun c hc => absurd hc List.not_mem_nil) (fun e t t' ht _ hnext => ?_) hrun
  cases next_cases hnext with
  | accepted clifd peer =>
    intro c hc
    rcases List.mem_append.mp hc with hold | hlast
    · exact ht c hold
    · rw [List.mem_singleton.mp hlast]
      exact hnew clifd peer
  | @moved _ i c c' _ hi hc hm =>
    intro d hd
    rcases List.mem_or_eq_of_mem_set hd with hold | rfl
    · exact ht d hold
    · exact hstep t.addr c d hc (ht c (List.mem_of_getElem? hi))
  | elsewhere hm => exact ht

end TcpServer

/-! ## Who is answered -/

namespace Session

/-- The replies are those to the first requests that ask for one, in order; only the last request
of a connection that is over can be without. -/
def Answered (c : Session) : Prop :=
  ∃ answered pending, c.requests.filter Msg.asksReply = answered ++ pending ∧
    List.Forall₂ Msg.Answers answered c.replies ∧
    (pending = [] ∨ (pending.length = 1 ∧ c.point = .stopped))

theorem answered_new (clifd : Int) (peer : UInt32) :
    Answered ⟨clifd, peer, .starting, [], []⟩ := ⟨[], [], rfl, .nil, .inl rfl⟩

/-- On a connection that is not over nothing is pending. -/
theorem Answered.of_serving {c : Session} (h : c.Answered) (hc : c.point ≠ .stopped) :
    List.Forall₂ Msg.Answers (c.requests.filter Msg.asksReply) c.replies := by
  obtain ⟨answered, pending, hsplit, hall, hpending⟩ := h
  rcases hpending with rfl | ⟨-, hstopped⟩
  · rw [hsplit, List.append_nil]
    exact hall
  · exact absurd hstopped hc

theorem Answered.step {addr : UInt32} {c c' : Session} (h : c.Answered)
    (hstep : TcpServer.SessionStep addr c c') : c'.Answered := by
  cases hstep with
  | copied hc =>
    exact ⟨_, [], (List.append_nil _).symm, h.of_serving (by rw [hc]; nofun), .inl rfl⟩
  | hung hc =>
    exact ⟨_, [], (List.append_nil _).symm, h.of_serving (by rw [hc]; nofun), .inl rfl⟩
  | stopped hc =>
    exact ⟨_, [], (List.append_nil _).symm, h.of_serving (by rw [hc]; nofun), .inl rfl⟩
  | @handled clientIp buffIn chunk ret written hc hret =>
    have hall := h.of_serving (by rw [hc]; nofun)
    obtain ⟨hanswers, hreplies⟩ := hret
    generalize (buffIn.overwrite chunk.1 chunk.2.2).setIpFromNet clientIp = buffIn' at *
    unfold handled
    dsimp only
    cases hasks : buffIn'.msg.asksReply with
    | false =>
      rw [hreplies, hasks, if_neg (by decide)]
      refine ⟨_, [], (List.append_nil _).symm, ?_, .inl rfl⟩
      rw [List.filter_append, List.filter_singleton, hasks, cond_false, List.append_nil]
      exact hall
    | true =>
      rw [hreplies, hasks, if_pos rfl]
      cases written with
      | true =>
        refine ⟨_, [], (List.append_nil _).symm, ?_, .inl rfl⟩
        rw [if_pos rfl]
        dsimp only
        rw [List.filter_append, List.filter_singleton, hasks, cond_true]
        exact List.rel_append hall (.cons hanswers .nil)
      | false =>
        refine ⟨_, [buffIn'.msg], ?_, hall, .inr ⟨rfl, rfl⟩⟩
        rw [if_neg (by decide)]
        dsimp only
        rw [List.filter_append, List.filter_singleton, hasks, cond_true]

end Session

/-- **On every connection, the replies answer the requests that ask for one, in order and one for
one.** -/
theorem TcpServer.answered_of_run {m : Manager} {s : TcpServer}
    (hrun : TcpServer.system.Run (TcpServer.start m) s) : ∀ c ∈ s.sessions, c.Answered :=
  TcpServer.each_of_run Session.answered_new (fun _ _ _ hstep h => h.step hstep) hrun

/-! ### Two containers of one node -/

/-- The message in one piece. -/
def Msg.chunk (req : Msg) : Chunk := ⟨req.bytes.1, by rw [req.bytes.2]; decide⟩

/-- A read of the whole message, at time 0. -/
def readWhole (i : ℕ) (req : Msg) (written : Bool) : TcpServer.Event :=
  .read i req.chunk (.uniform 0 0 0 0 0) written

/-- The application of both. -/
def pairedApp : Manager := .started oneAgent ⟨4000, 118⟩

/-- Both connect; the second one's memory request is granted, but the reply cannot be written. -/
def twoSessions : List TcpServer.Event :=
  [.accept 7 node.addr, .copyAddress 0, .accept 8 node.addr, .copyAddress 1,
    readWhole 0 (msgOf 1 initReq 1000 0) true, readWhole 1 (msgOf 2 initReq 1000 0) true,
    readWhole 0 (msgOf 1 cpuReq 1000 0) true, readWhole 0 (msgOf 1 memReq 10 1) true,
    readWhole 1 (msgOf 2 memReq 10 1) false, .close 0]

theorem answered_in_two_sessions :
    ∃ s, TcpServer.system.Run (TcpServer.start pairedApp) s ∧
      s.sessions.map (fun c => (c.requests.length, c.replies.length)) = [(3, 2), (2, 1)] ∧
      ∀ c ∈ s.sessions, c.Answered := by
  have hreplay : ((TcpServer.system.replay twoSessions
      (TcpServer.start pairedApp)).any fun s =>
        s.sessions.map (fun c => (c.requests.length, c.replies.length)) = [(3, 2), (2, 1)]) =
      true := by
    decide +kernel
  obtain ⟨s, hrun, hs⟩ := System.exists_run_of_replay hreplay
  exact ⟨s, hrun, of_decide_eq_true hs, TcpServer.answered_of_run hrun⟩

/-! ## What has been read -/

theorem Turn.chunk_length_le (turn : Turn) : turn.chunk.1.length ≤ 56 := turn.chunk.2.2

/-- The buffer after `turns`. -/
def bufferAfter (clientIp : UInt32) : Buff → List Turn → Buff :=
  List.foldl fun buffIn turn =>
    (buffIn.overwrite turn.chunk.1 turn.chunk_length_le).setIpFromNet clientIp

/-- The loop after turns that all led to the next: one more read is one more request. -/
theorem handleClientReqsTcp_concat {clientIp : UInt32} {turns : List Turn} {turn : Turn}
    (hround : ∀ t ∈ turns, t.comesRound) (buffIn : Buff) :
    handleClientReqsTcp clientIp buffIn (turns ++ [turn]) =
      handleClientReqsTcp clientIp buffIn turns ++
        [(bufferAfter clientIp buffIn (turns ++ [turn])).msg] := by
  induction turns generalizing buffIn with
  | nil =>
    unfold handleClientReqsTcp
    dsimp only [List.nil_append]
    cases turn.comesRound <;> rfl
  | cons t ts ih =>
    have hrest := ih (fun t' ht' => hround t' (List.mem_cons_of_mem t ht'))
    unfold handleClientReqsTcp
    dsimp only [List.cons_append]
    rw [if_pos (hround t List.mem_cons_self), if_pos (hround t List.mem_cons_self), hrest]
    rfl

namespace Session

/-- The connection as the receive loop sees it, when `chunks` have been read on it: what has been
handled is what the turns made so far dispatch, and the buffer is the one they have left. A request
whose handler has not come back is the last one. -/
structure Traced (chunks : List (List UInt8)) (c : Session) : Prop where
  starting : c.point = .starting → chunks = [] ∧ c.requests = []
  serving : ∀ clientIp buffIn, c.point = .serving clientIp buffIn →
    ∃ turns : List Turn, (∀ t ∈ turns, t.comesRound) ∧ turns.map (·.chunk.1) = chunks ∧
      c.requests = handleClientReqsTcp clientIp .zero turns ∧
      buffIn = bufferAfter clientIp .zero turns
  hanging : c.point = .hanging →
    ∃ (conn : Connection) (clientIp : UInt32), conn.chunks = chunks ∧
      c.requests = (conn.dispatched clientIp).dropLast
  stopped : c.point = .stopped →
    ∃ (conn : Connection) (clientIp : UInt32), conn.chunks = chunks ∧
      c.requests = conn.dispatched clientIp

variable {addr clientIp : UInt32} {buffIn : Buff} {chunks : List (List UInt8)} {c : Session}

theorem Traced.copied (h : c.Traced chunks) (hc : c.point = .starting) :
    ({ c with point := .serving addr .zero } : Session).Traced chunks := by
  refine ⟨nofun, fun ip buff hserving => ?_, nofun, nofun⟩
  cases hserving
  obtain ⟨hchunks, hrequests⟩ := h.starting hc
  exact ⟨[], fun _ ht => absurd ht List.not_mem_nil, hchunks.symm, hrequests, rfl⟩

theorem Traced.closed (h : c.Traced chunks) (hc : c.point = .serving clientIp buffIn) :
    ({ c with point := .stopped } : Session).Traced chunks := by
  obtain ⟨turns, hround, hchunks, hrequests, -⟩ := h.serving _ _ hc
  exact ⟨nofun, nofun, nofun, fun _ =>
    ⟨⟨turns, fun t ht => hround t (List.mem_of_mem_dropLast ht)⟩, _, hchunks, hrequests⟩⟩

/-- One more turn, which may be the last one. -/
theorem Traced.exists_turn (h : c.Traced chunks) (hc : c.point = .serving clientIp buffIn)
    (turn : Turn) :
    ∃ turns : List Turn, (∀ t ∈ turns, t.comesRound) ∧
      (∀ t ∈ (turns ++ [turn]).dropLast, t.comesRound) ∧
      (turns ++ [turn]).map (·.chunk.1) = chunks ++ [turn.chunk.1] ∧
      c.requests = handleClientReqsTcp clientIp .zero turns ∧
      (buffIn.overwrite turn.chunk.1 turn.chunk.2.2).setIpFromNet clientIp =
        bufferAfter clientIp .zero (turns ++ [turn]) := by
  obtain ⟨turns, hround, hchunks, hrequests, rfl⟩ := h.serving _ _ hc
  refine ⟨turns, hround, ?_, ?_, hrequests, ?_⟩
  · rw [List.dropLast_concat]
    exact hround
  · rw [List.map_append, hchunks]
    rfl
  · unfold bufferAfter
    rw [List.foldl_concat]

theorem Traced.hung (h : c.Traced chunks) (hc : c.point = .serving clientIp buffIn)
    (chunk : Chunk) : ({ c with point := .hanging } : Session).Traced (chunks ++ [chunk.1]) := by
  obtain ⟨turns, hround, hmade, hchunks, hrequests, -⟩ := h.exists_turn hc ⟨chunk, none, false⟩
  refine ⟨nofun, nofun, fun _ => ⟨⟨_, hmade⟩, clientIp, hchunks, ?_⟩, nofun⟩
  unfold Connection.dispatched
  dsimp only
  rw [handleClientReqsTcp_concat hround, List.dropLast_concat]
  exact hrequests

theorem Traced.handled (h : c.Traced chunks) (hc : c.point = .serving clientIp buffIn)
    (chunk : Chunk) (ret : AllocRet × Msg) (written : Bool) :
    (c.handled clientIp ((buffIn.overwrite chunk.1 chunk.2.2).setIpFromNet clientIp) ret
      written).Traced (chunks ++ [chunk.1]) := by
  let turn : Turn := ⟨chunk, some ret, written⟩
  obtain ⟨turns, hround, hmade, hchunks, hrequests, hbuffer⟩ := h.exists_turn hc turn
  have hcomes (hyes : turn.comesRound = true) : ∀ t ∈ turns ++ [turn], t.comesRound := by
    intro t ht
    rcases List.mem_append.mp ht with hold | hlast
    · exact hround t hold
    · rw [List.mem_singleton.mp hlast]
      exact hyes
  have hall : c.requests ++ [(bufferAfter clientIp .zero (turns ++ [turn])).msg] =
      handleClientReqsTcp clientIp .zero (turns ++ [turn]) := by
    rw [handleClientReqsTcp_concat hround, hrequests]
  unfold Session.handled
  dsimp only
  rw [show (buffIn.overwrite chunk.1 chunk.2.2).setIpFromNet clientIp = _ from hbuffer, hall]
  split
  · rename_i hreplies
    split
    · rename_i hwritten
      refine ⟨nofun, fun ip buff hserving => ?_, nofun, nofun⟩
      cases hserving
      exact ⟨_, hcomes (by show (!repliesTo ret.1 ret.2 || written) = true; simp [hwritten]),
        hchunks, rfl, rfl⟩
    · exact ⟨nofun, nofun, nofun, fun _ => ⟨⟨_, hmade⟩, clientIp, hchunks, rfl⟩⟩
  · rename_i hreplies
    refine ⟨nofun, fun ip buff hserving => ?_, nofun, nofun⟩
    cases hserving
    exact ⟨_, hcomes (by show (!repliesTo ret.1 ret.2 || written) = true; simp [hreplies]),
      hchunks, rfl, rfl⟩

theorem Traced.dispatched (h : c.Traced chunks) :
    ∃ (conn : Connection) (clientIp : UInt32), conn.chunks = chunks ∧
      (c.requests = conn.dispatched clientIp ∨
        c.point = .hanging ∧ c.requests = (conn.dispatched clientIp).dropLast) := by
  cases hpoint : c.point with
  | starting =>
    obtain ⟨hchunks, hrequests⟩ := h.starting hpoint
    exact ⟨⟨[], fun _ ht => absurd ht List.not_mem_nil⟩, 0, hchunks.symm, .inl hrequests⟩
  | serving clientIp buffIn =>
    obtain ⟨turns, hround, hchunks, hrequests, -⟩ := h.serving _ _ hpoint
    exact ⟨⟨turns, fun t ht => hround t (List.mem_of_mem_dropLast ht)⟩, clientIp, hchunks,
      .inl hrequests⟩
  | hanging =>
    obtain ⟨conn, clientIp, hchunks, hrequests⟩ := h.hanging hpoint
    exact ⟨conn, clientIp, hchunks, .inr ⟨rfl, hrequests⟩⟩
  | stopped =>
    obtain ⟨conn, clientIp, hchunks, hrequests⟩ := h.stopped hpoint
    exact ⟨conn, clientIp, hchunks, .inl hrequests⟩

end Session

namespace TcpServer

/-- What an event reads on connection `i`. -/
def Event.chunk? (i : ℕ) : Event → Option (List UInt8)
  | .read j chunk _ _ => if j = i then some chunk.1 else none
  | _ => none

/-- What is read on connection `i`, in the pieces it comes in. -/
def chunksOf (i : ℕ) (events : List Event) : List (List UInt8) :=
  events.filterMap (Event.chunk? i)

/-- After `events`, every connection is as its own chunks have made it. -/
structure Traces (events : List Event) (s : TcpServer) : Prop where
  traced : ∀ (i : ℕ) (c : Session), s.sessions[i]? = some c → c.Traced (chunksOf i events)
  unread : ∀ i, s.sessions.length ≤ i → chunksOf i events = []

variable {s s' : TcpServer} {e : Event} {events : List Event} {i : ℕ} {c c' : Session}

theorem chunksOf_concat :
    chunksOf i (events ++ [e]) = chunksOf i events ++ (e.chunk? i).toList := by
  unfold chunksOf
  rw [List.filterMap_append]
  cases h : e.chunk? i with
  | none => rw [List.filterMap_cons_none h]; rfl
  | some chunk => rw [List.filterMap_cons_some h]; rfl

theorem chunksOf_concat_of_none (h : e.chunk? i = none) :
    chunksOf i (events ++ [e]) = chunksOf i events := by
  rw [chunksOf_concat, h, Option.toList_none, List.append_nil]

theorem chunk?_read_ne {j : ℕ} {chunk : Chunk} {env : Env} {written : Bool} (hne : j ≠ i) :
    (Event.read j chunk env written).chunk? i = none := if_neg hne

/-- Only connection `i` moves. -/
theorem Traces.moved (h : Traces events s) (hi : s.sessions[i]? = some c)
    (hother : ∀ j, i ≠ j → e.chunk? j = none)
    (hc : c'.Traced (chunksOf i (events ++ [e])))
    (hsessions : s'.sessions = s.sessions.set i c') : Traces (events ++ [e]) s' := by
  obtain ⟨hlt, -⟩ := List.getElem?_eq_some_iff.mp hi
  refine ⟨fun j d hj => ?_, fun j hj => ?_⟩
  · rw [hsessions] at hj
    by_cases heq : i = j
    · subst heq
      rw [List.getElem?_set_self hlt] at hj
      cases hj
      exact hc
    · rw [List.getElem?_set_ne heq] at hj
      rw [chunksOf_concat_of_none (hother j heq)]
      exact h.traced j d hj
  · rw [hsessions, List.length_set] at hj
    have hne : i ≠ j := by omega
    rw [chunksOf_concat_of_none (hother j hne)]
    exact h.unread j hj

/-- What a turn makes of its connection. -/
theorem sessions_turn {clientIp : UInt32} {buffIn : Buff} {chunk : Chunk} {env : Env}
    {written : Bool} (h : s.turn i c clientIp buffIn chunk env written = some s') :
    (∃ ret, s'.sessions = s.sessions.set i (c.handled clientIp
      ((buffIn.overwrite chunk.1 chunk.2.2).setIpFromNet clientIp) ret written)) ∨
      s'.sessions = s.sessions.set i { c with point := .hanging } := by
  unfold turn at h
  dsimp only at h
  split at h
  · cases h
    exact .inl ⟨_, rfl⟩
  · cases h
    exact .inr rfl
  · cases h

theorem Traces.next (h : Traces events s) (hnext : next e s = some s') :
    Traces (events ++ [e]) s' := by
  have hsame {i : ℕ} {c : Session} (hi : s.sessions[i]? = some c) (hnone : e.chunk? i = none) :
      c.Traced (chunksOf i (events ++ [e])) := by
    rw [chunksOf_concat_of_none hnone]
    exact h.traced i c hi
  cases e with
  | accept clifd peer =>
    cases hnext
    refine ⟨fun i c hi => ?_, fun i hi => ?_⟩
    all_goals
      rw [chunksOf_concat_of_none rfl]
      dsimp only at hi
    · rcases Nat.lt_or_ge i s.sessions.length with hlt | hge
      · rw [List.getElem?_append_left hlt] at hi
        exact h.traced i c hi
      · rw [List.getElem?_append_right hge] at hi
        obtain ⟨hzero, rfl⟩ := List.getElem?_eq_some_iff.mp hi
        rw [h.unread i hge]
        simp only [List.getElem_singleton]
        exact ⟨fun _ => ⟨rfl, rfl⟩, nofun, nofun, nofun⟩
    · rw [List.length_append] at hi
      exact h.unread i (by omega)
  | copyAddress i =>
    obtain ⟨c, hi, hc⟩ := Option.bind_eq_some_iff.mp hnext
    split at hc
    · rename_i hpoint
      cases hc
      exact h.moved hi (fun _ _ => rfl) ((hsame hi rfl).copied hpoint) rfl
    · cases hc
  | read i chunk env written =>
    obtain ⟨c, hi, hc⟩ := Option.bind_eq_some_iff.mp hnext
    have hread : chunksOf i (events ++ [.read i chunk env written]) =
        chunksOf i events ++ [chunk.1] := by
      rw [chunksOf_concat, show (Event.read i chunk env written).chunk? i = some chunk.1 from
        if_pos rfl]
      rfl
    split at hc
    · rename_i hpoint
      rcases sessions_turn hc with ⟨ret, hsessions⟩ | hsessions
      · refine h.moved hi (fun _ hne => chunk?_read_ne hne) ?_ hsessions
        rw [hread]
        exact (h.traced i c hi).handled hpoint chunk ret written
      · refine h.moved hi (fun _ hne => chunk?_read_ne hne) ?_ hsessions
        rw [hread]
        exact (h.traced i c hi).hung hpoint chunk
    · cases hc
  | close i =>
    obtain ⟨c, hi, hc⟩ := Option.bind_eq_some_iff.mp hnext
    split at hc
    · rename_i hpoint
      cases hc
      exact h.moved hi (fun _ _ => rfl) ((hsame hi rfl).closed hpoint) rfl
    · cases hc
  | other e =>
    obtain ⟨m, -, rfl⟩ := Option.map_eq_some_iff.mp hnext
    refine ⟨fun i c hi => hsame hi rfl, fun i hi => ?_⟩
    rw [chunksOf_concat_of_none rfl]
    exact h.unread i hi

/-- **The requests of a connection are what the receive loop dispatches for what is read on it, in
the pieces it comes in**, but for a last one whose handler does not come back. So what is said of
one connection in `Framing.lean` holds of each, whatever the others do. -/
theorem dispatched_of_replay {m : Manager} (hreplay : system.replay events (start m) = some s)
    (hi : s.sessions[i]? = some c) :
    ∃ (conn : Connection) (clientIp : UInt32), conn.chunks = chunksOf i events ∧
      (c.requests = conn.dispatched clientIp ∨
        c.point = .hanging ∧ c.requests = (conn.dispatched clientIp).dropLast) := by
  have hstart : Traces [] (start m) := ⟨fun _ _ hj => absurd hj (by simp [start]), fun _ _ => rfl⟩
  have htraces : Traces events s :=
    System.invariant_of_replay hstart (fun _ _ _ _ ht _ hnext => ht.next hnext) hreplay
  exact (htraces.traced i c hi).dispatched

theorem dispatched_in_two_sessions :
    ∃ s, system.replay twoSessions (start pairedApp) = some s ∧
      (chunksOf 0 twoSessions).length = 3 ∧ ∀ (i : ℕ) (c : Session), s.sessions[i]? = some c →
        ∃ (conn : Connection) (clientIp : UInt32), conn.chunks = chunksOf i twoSessions ∧
          (c.requests = conn.dispatched clientIp ∨
            c.point = .hanging ∧ c.requests = (conn.dispatched clientIp).dropLast) := by
  have hsome : (system.replay twoSessions (start pairedApp)).isSome = true := by decide +kernel
  obtain ⟨s, hs⟩ := Option.isSome_iff_exists.mp hsome
  exact ⟨s, hs, rfl, fun _ _ hi => dispatched_of_replay hs hi⟩

end TcpServer

/-! ## In whose name -/

namespace Session

variable {addr clientIp : UInt32} {c c' : Session} {buffIn : Buff} {ret : AllocRet × Msg}
  {written : Bool}

theorem requests_handled :
    (c.handled clientIp buffIn ret written).requests = c.requests ++ [buffIn.msg] := by
  unfold handled
  split
  · split <;> rfl
  · rfl

theorem peer_handled : (c.handled clientIp buffIn ret written).peer = c.peer := by
  unfold handled
  split
  · split <;> rfl
  · rfl

theorem point_handled :
    (c.handled clientIp buffIn ret written).point = .serving clientIp buffIn ∨
      (c.handled clientIp buffIn ret written).point = .stopped := by
  unfold handled
  split
  · split
    · exact .inl rfl
    · exact .inr rfl
  · exact .inl rfl

theorem peer_step (h : TcpServer.SessionStep addr c c') : c'.peer = c.peer := by
  cases h with
  | copied hc => rfl
  | handled chunk written hc hret => exact peer_handled
  | hung hc => rfl
  | stopped hc => rfl

/-- The connection goes by the address `ip`, in what it has had handled and in what is to come. -/
structure GoesBy (ip : UInt32) (c : Session) : Prop where
  started : c.point ≠ .starting
  serving : ∀ clientIp buffIn, c.point = .serving clientIp buffIn → clientIp = ip
  requests : ∀ req ∈ c.requests, req.clientIp = .fromNet ip

theorem goesBy_copied {ip : UInt32} (hnone : c.requests = []) :
    GoesBy ip { c with point := .serving ip .zero } where
  started := nofun
  serving clientIp buffIn h := by
    cases h
    rfl
  requests req hreq := by
    rw [hnone] at hreq
    exact absurd hreq List.not_mem_nil

theorem GoesBy.step {ip : UInt32} (h : GoesBy ip c) (hstep : TcpServer.SessionStep addr c c') :
    GoesBy ip c' := by
  cases hstep with
  | copied hc => exact absurd hc h.started
  | hung hc => exact ⟨nofun, nofun, h.requests⟩
  | stopped hc => exact ⟨nofun, nofun, h.requests⟩
  | @handled clientIp buffIn chunk ret written hc hret =>
    obtain rfl := h.serving clientIp buffIn hc
    refine ⟨fun hstarting => ?_, fun ip' buff hserving => ?_, fun req hreq => ?_⟩
    · rcases point_handled (c := c) with hpoint | hpoint <;> rw [hpoint] at hstarting <;>
        cases hstarting
    · rcases point_handled (c := c) with hpoint | hpoint
      · rw [hpoint] at hserving
        cases hserving
        rfl
      · rw [hpoint] at hserving
        cases hserving
    · rw [requests_handled] at hreq
      rcases List.mem_append.mp hreq with hold | hlast
      · exact h.requests req hold
      · rw [List.mem_singleton.mp hlast, Buff.msg_setIpFromNet]
        rfl

/-- Before the address is copied nothing has been read. -/
def Unread (c : Session) : Prop := c.point = .starting → c.requests = []

theorem Unread.step (hstep : TcpServer.SessionStep addr c c') : c'.Unread := by
  intro hstarting
  cases hstep with
  | copied hc => cases hstarting
  | hung hc => cases hstarting
  | stopped hc => cases hstarting
  | handled chunk written hc hret =>
    rcases point_handled (c := c) with hpoint | hpoint <;> rw [hpoint] at hstarting <;>
      cases hstarting

end Session

namespace TcpServer

variable {s s' : TcpServer} {e : Event} {m : Manager}

theorem unread_of_run (hrun : system.Run (start m) s) : ∀ c ∈ s.sessions, c.Unread :=
  each_of_run (fun _ _ _ => rfl) (fun _ _ _ hstep _ => Session.Unread.step hstep) hrun

/-- No thread has yet to copy the address of another peer when a connection is accepted. -/
def Prompt (s : TcpServer) : Event → Prop
  | .accept _ peer => ∀ c ∈ s.sessions, c.point = .starting → c.peer = peer
  | _ => True

instance (s : TcpServer) : (e : Event) → Decidable (s.Prompt e)
  | .accept _ _ => inferInstanceAs (Decidable (∀ c ∈ _, _ → _))
  | .copyAddress _ => .isTrue trivial
  | .read _ _ _ _ => .isTrue trivial
  | .close _ => .isTrue trivial
  | .other _ => .isTrue trivial

/-- A connection that goes by the address `ip`, or is about to when `server_sock_tcp.addr` is
`addr`. -/
def InNameOf (ip addr : UInt32) (c : Session) : Prop :=
  (c.point = .starting ∧ ip = addr ∧ c.requests = []) ∨ c.GoesBy ip

theorem InNameOf.step {ip addr : UInt32} {c c' : Session} (h : InNameOf ip addr c)
    (hstep : SessionStep addr c c') : InNameOf ip addr c' := by
  rcases h with ⟨hstarting, hip, hnone⟩ | hgoes
  · cases hstep with
    | copied hc =>
      subst hip
      exact .inr (Session.goesBy_copied hnone)
    | hung hc =>
      rw [hstarting] at hc
      cases hc
    | stopped hc =>
      rw [hstarting] at hc
      cases hc
    | handled chunk written hc hret =>
      rw [hstarting] at hc
      cases hc
  · exact .inr (hgoes.step hstep)

/-- All its requests have been handled under that address. -/
theorem InNameOf.requests {ip addr : UInt32} {c : Session} (h : InNameOf ip addr c) :
    ∀ req ∈ c.requests, req.clientIp = .fromNet ip := by
  rcases h with ⟨-, -, hnone⟩ | hgoes
  · rw [hnone]
    exact fun _ hreq => absurd hreq List.not_mem_nil
  · exact hgoes.requests

/-- **If every thread copies its address before the next peer is accepted, all requests are handled
in the name of who has sent them.** -/
theorem attributed_of_run (hrun : (system.only Prompt).Run (start m) s) :
    ∀ c ∈ s.sessions, ∀ req ∈ c.requests, req.clientIp = .fromNet c.peer := by
  have hinv : ∀ c ∈ s.sessions, InNameOf c.peer s.addr c := by
    refine System.invariant (I := fun t => ∀ c ∈ t.sessions, InNameOf c.peer t.addr c)
      (fun c hc => absurd hc List.not_mem_nil) (fun e t t' ht hen hnext => ?_) hrun
    have hprompt := hen.2
    cases next_cases hnext with
    | accepted clifd peer =>
      intro c hc
      rcases List.mem_append.mp hc with hold | hlast
      · rcases ht c hold with ⟨hstarting, -, hnone⟩ | hgoes
        · exact .inl ⟨hstarting, hprompt c hold hstarting, hnone⟩
        · exact .inr hgoes
      · rw [List.mem_singleton.mp hlast]
        exact .inl ⟨rfl, rfl, rfl⟩
    | @moved _ i c c' _ hi hc hm =>
      intro d hd
      rcases List.mem_or_eq_of_mem_set hd with hold | rfl
      · exact ht d hold
      · rw [Session.peer_step hc]
        exact (ht c (List.mem_of_getElem? hi)).step hc
    | elsewhere hm => exact ht
  exact fun c hc => (hinv c hc).requests

/-- No connection is accepted before the thread of connection `i` has copied its address. -/
def CopiesFirst (i : ℕ) (s : TcpServer) : Event → Prop
  | .accept _ _ => ∀ c ∈ s.sessions[i]?, c.point ≠ .starting
  | _ => True

instance (i : ℕ) (s : TcpServer) : (e : Event) → Decidable (CopiesFirst i s e)
  | .accept _ _ => inferInstanceAs (Decidable (∀ c ∈ s.sessions[i]?, _))
  | .copyAddress _ => .isTrue trivial
  | .read _ _ _ _ => .isTrue trivial
  | .close _ => .isTrue trivial
  | .other _ => .isTrue trivial

/-- Whose name connection `i` goes by is settled by the last address before it copies one. -/
theorem inNameOf_of_run {ip : UInt32} {i : ℕ} {c : Session} (hi : s.sessions[i]? = some c)
    (hc : InNameOf ip s.addr c) (hrun : (system.only (CopiesFirst i)).Run s s') :
    ∃ c', s'.sessions[i]? = some c' ∧ c'.peer = c.peer ∧ InNameOf ip s'.addr c' := by
  refine System.invariant (I := fun t => ∃ c', t.sessions[i]? = some c' ∧ c'.peer = c.peer ∧
    InNameOf ip t.addr c') ⟨c, hi, rfl, hc⟩ (fun e t t' ht hen hnext => ?_) hrun
  obtain ⟨d, hd, hpeer, hname⟩ := ht
  cases next_cases hnext with
  | accepted clifd peer =>
    refine ⟨d, ?_, hpeer, ?_⟩
    · rw [List.getElem?_append_left (List.getElem?_eq_some_iff.mp hd).1]
      exact hd
    · have hcopied : d.point ≠ .starting := hen.2 d hd
      exact hname.imp_left fun h => absurd h.1 hcopied
  | @moved _ j a a' _ hj ha hm =>
    by_cases hij : j = i
    · subst hij
      rw [hd] at hj
      cases hj
      refine ⟨a', ?_, (Session.peer_step ha).trans hpeer, hname.step ha⟩
      exact List.getElem?_set_self (List.getElem?_eq_some_iff.mp hd).1
    · refine ⟨d, ?_, hpeer, hname⟩
      rw [List.getElem?_set_ne hij]
      exact hd
  | elsewhere hm => exact ⟨d, hd, hpeer, hname⟩

theorem next_copyAddress {i : ℕ} {c : Session} (hi : s.sessions[i]? = some c)
    (hc : c.point = .starting) : next (.copyAddress i) s =
      some { s with sessions := s.sessions.set i { c with point := .serving s.addr .zero } } := by
  simp only [next, hi, Option.bind_some, hc]

/-- **A connection accepted before the thread of an earlier one has run takes the earlier one
over.** The earlier thread can copy the later peer's address and serve; and unless yet another peer
is accepted before it does, whatever its own peer sends is handled in the name of the later one. -/
theorem misattributed {i : ℕ} {c : Session} (hrun : system.Run (start m) s)
    (hi : s.sessions[i]? = some c) (hc : c.point = .starting) (clifd : Int) (peer : UInt32) :
    ∃ s₁, system.next (.accept clifd peer) s = some s₁ ∧
      (∃ s₂, system.next (.copyAddress i) s₁ = some s₂ ∧
        s₂.sessions[i]? = some { c with point := .serving peer .zero }) ∧
      ∀ s', (system.only (CopiesFirst i)).Run s₁ s' →
        ∃ c', s'.sessions[i]? = some c' ∧ c'.peer = c.peer ∧
          ∀ req ∈ c'.requests, req.clientIp = .fromNet peer := by
  let t : TcpServer :=
    { s with addr := peer, sessions := s.sessions ++ [⟨clifd, peer, .starting, [], []⟩] }
  have hat : t.sessions[i]? = some c := by
    show (s.sessions ++ _)[i]? = some c
    rw [List.getElem?_append_left (List.getElem?_eq_some_iff.mp hi).1]
    exact hi
  refine ⟨t, rfl, ⟨_, next_copyAddress hat hc, ?_⟩, fun s' hrun' => ?_⟩
  · exact List.getElem?_set_self (List.getElem?_eq_some_iff.mp hat).1
  · have hname : InNameOf peer t.addr c :=
      .inl ⟨hc, rfl, unread_of_run hrun c (List.mem_of_getElem? hi) hc⟩
    obtain ⟨c', hc', hpeer, hname'⟩ := inNameOf_of_run hat hname hrun'
    exact ⟨c', hc', hpeer, hname'.requests⟩

/-- 127.0.0.1 and 127.0.0.2 are accepted before either thread has run, and the container of the
first is admitted under the address of the second. -/
theorem misattributed_among_two :
    ∃ s s', system.Run (start pairedApp) s ∧ (system.only (CopiesFirst 0)).Run s s' ∧
      ∃ c', s'.sessions[0]? = some c' ∧ c'.peer = 16777343 ∧ c'.requests.length = 1 ∧
        ∀ req ∈ c'.requests, req.clientIp = .fromNet 33554559 := by
  let s : TcpServer :=
    { start pairedApp with addr := 16777343, sessions := [⟨7, 16777343, .starting, [], []⟩] }
  have haccepted : system.Run (start pairedApp) s := .single ⟨.accept 7 16777343, trivial, rfl⟩
  obtain ⟨s₁, hnext, -, hall⟩ :=
    misattributed haccepted (List.getElem?_cons_zero) rfl 8 33554559
  obtain rfl := Option.some.inj hnext
  have hreplay : (((system.only (CopiesFirst 0)).replay
      [.copyAddress 0, readWhole 0 (msgOf 1 initReq 1000 0) true]
      { s with
        addr := 33554559
        sessions := [⟨7, 16777343, .starting, [], []⟩, ⟨8, 33554559, .starting, [], []⟩] }).any
      fun s' => s'.sessions[0]?.any fun c => decide (c.requests.length = 1)) = true := by
    decide +kernel
  obtain ⟨s', hrun, hs'⟩ := System.exists_run_of_replay hreplay
  obtain ⟨c', hc', hpeer, hrequests⟩ := hall s' hrun
  rw [hc'] at hs'
  have hlength : c'.requests.length = 1 := of_decide_eq_true hs'
  exact ⟨_, s', haccepted.tail ⟨_, trivial, hnext⟩, hrun, c', hc', hpeer, hlength, hrequests⟩

/-- A container of the node, and a peer elsewhere that sends a request of no known type. -/
theorem attributed_in_two_sessions :
    ∃ s, (system.only Prompt).Run (start pairedApp) s ∧
      s.sessions.map (fun c => (c.peer, c.requests.length)) = [(16777343, 3), (33554559, 1)] ∧
      ∀ c ∈ s.sessions, ∀ req ∈ c.requests, req.clientIp = .fromNet c.peer := by
  have hreplay : (((system.only Prompt).replay
      [.accept 7 node.addr, .copyAddress 0, .accept 8 33554559,
        readWhole 0 (msgOf 1 initReq 1000 0) true, .copyAddress 1,
        readWhole 1 (msgOf 1 9 0 0) true, readWhole 0 (msgOf 1 cpuReq 1000 0) true,
        readWhole 0 (msgOf 1 memReq 10 1) true] (start pairedApp)).any fun s =>
        s.sessions.map (fun c => (c.peer, c.requests.length)) =
          [(16777343, 3), (33554559, 1)]) = true := by
    decide +kernel
  obtain ⟨s, hrun, hs⟩ := System.exists_run_of_replay hreplay
  exact ⟨s, hrun, of_decide_eq_true hs, attributed_of_run hrun⟩

end TcpServer

end EcGcm
