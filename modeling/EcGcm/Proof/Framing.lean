import EcGcm.Server

/-!
# Requests on a TCP connection

A client writes `msg_t`s of 56 bytes. Each `read` of the server is followed by one call of
`handle_req` on the whole buffer, so there are as many requests as reads (`length_dispatched`),
and they are the requests sent exactly when no read came up short (`dispatched_eq_sent_iff`). A
message that arrives in two pieces is two requests: the first ends in bytes of an earlier message,
the second begins in the middle of its own.
-/

set_option autoImplicit false

namespace EcGcm

open Bytes

namespace Buff

variable {buff : Buff} {bytes : List UInt8} {ip : UInt32}

theorem overwrite_of_whole (h : bytes.length ≤ 56) (hwhole : bytes.length = 56) :
    buff.overwrite bytes h = ⟨bytes, hwhole⟩ := by
  refine Subtype.ext ?_
  show bytes ++ buff.1.drop bytes.length = bytes
  rw [List.drop_of_length_le (by rw [buff.2, hwhole]), List.append_nil]

theorem bytes_setIpFromNet : (buff.setIpFromNet ip).1 = leBytes 4 ip.toNat ++ buff.1.drop 4 := by
  show leBytes 4 ip.toNat ++ buff.1.drop (leBytes 4 ip.toNat).length = _
  rw [length_leBytes]

/-- The address goes over the first word and over nothing else. -/
theorem drop_setIpFromNet {offset : ℕ} (h : 4 ≤ offset) :
    (buff.setIpFromNet ip).1.drop offset = buff.1.drop offset := by
  rw [bytes_setIpFromNet, List.drop_append, length_leBytes,
    List.drop_of_length_le (by rw [length_leBytes]; exact h), List.nil_append, List.drop_drop,
    Nat.add_sub_cancel' h]

theorem uint32At_setIpFromNet {offset : ℕ} (h : 4 ≤ offset) :
    (buff.setIpFromNet ip).uint32At offset = buff.uint32At offset := by
  unfold uint32At
  rw [drop_setIpFromNet h]

theorem uint64At_setIpFromNet {offset : ℕ} (h : 4 ≤ offset) :
    (buff.setIpFromNet ip).uint64At offset = buff.uint64At offset := by
  unfold uint64At
  rw [drop_setIpFromNet h]

theorem uint32At_zero_setIpFromNet : (buff.setIpFromNet ip).uint32At 0 = ip := by
  unfold uint32At
  rw [bytes_setIpFromNet, List.drop_zero, List.take_left' (length_leBytes 4 _),
    uint32_leNat_leBytes]

theorem msg_setIpFromNet : (buff.setIpFromNet ip).msg = buff.msg.setIpFromNet ip := by
  unfold msg
  rw [uint32At_zero_setIpFromNet, uint32At_setIpFromNet (by decide),
    uint32At_setIpFromNet (by decide), uint32At_setIpFromNet (by decide),
    uint64At_setIpFromNet (by decide), uint64At_setIpFromNet (by decide),
    uint64At_setIpFromNet (by decide)]
  rfl

end Buff

/-- What a client sends is what the server, with the whole of it in the buffer, sees. -/
theorem Msg.msg_bytes (req : Msg) : req.bytes.msg = req := by
  simp [Msg.bytes, Buff.msg, Buff.uint32At, Buff.uint64At, List.drop_append,
    List.drop_of_length_le, uint32_leNat_leBytes, uint64_leNat_leBytes]

/-! ## The loop -/

section Loop

variable {clientIp : UInt32} {buffIn : Buff} {turn : Turn} {turns : List Turn}

/-- A turn that was made is one request, whatever follows from it. -/
theorem handleClientReqsTcp_cons (hmade : ∀ t ∈ (turn :: turns).dropLast, t.comesRound) :
    handleClientReqsTcp clientIp buffIn (turn :: turns) =
      (buffIn.overwrite turn.chunk.1 turn.chunk.2.2).msg.setIpFromNet clientIp ::
        handleClientReqsTcp clientIp
          ((buffIn.overwrite turn.chunk.1 turn.chunk.2.2).setIpFromNet clientIp) turns := by
  rw [handleClientReqsTcp, Buff.msg_setIpFromNet]
  cases turns with
  | nil => simp only [handleClientReqsTcp, ite_self]
  | cons t ts =>
    have hround : turn.comesRound = true := hmade turn List.mem_cons_self
    rw [if_pos hround]

theorem made_tail (hmade : ∀ t ∈ (turn :: turns).dropLast, t.comesRound) :
    ∀ t ∈ turns.dropLast, t.comesRound := by
  cases turns with
  | nil => exact fun t ht => absurd ht List.not_mem_nil
  | cons t ts => exact fun t' ht => hmade t' (List.mem_cons_of_mem turn ht)

theorem length_handleClientReqsTcp (hmade : ∀ t ∈ turns.dropLast, t.comesRound) :
    (handleClientReqsTcp clientIp buffIn turns).length = turns.length := by
  induction turns generalizing buffIn with
  | nil => rfl
  | cons turn turns ih =>
    rw [handleClientReqsTcp_cons hmade, List.length_cons, List.length_cons, ih (made_tail hmade)]

/-- Reads that return whole messages dispatch these messages: nothing of the old buffer is left. -/
theorem handleClientReqsTcp_of_whole {sent : List Buff}
    (hmade : ∀ t ∈ turns.dropLast, t.comesRound)
    (h : turns.map (·.chunk.1) = sent.map (·.1)) :
    handleClientReqsTcp clientIp buffIn turns = sent.map (·.msg.setIpFromNet clientIp) := by
  induction turns generalizing buffIn sent with
  | nil =>
    rw [List.map_nil, eq_comm, List.map_eq_nil_iff] at h
    rw [h]
    rfl
  | cons turn turns ih =>
    cases sent with
    | nil => exact absurd h (List.cons_ne_nil _ _)
    | cons packet sent =>
      have hchunk : turn.chunk.1 = packet.1 := (List.cons.inj h).1
      have hrest := (List.cons.inj h).2
      have hwhole : turn.chunk.1.length = 56 := by rw [hchunk]; exact packet.2
      have hpacket : (⟨turn.chunk.1, hwhole⟩ : Buff) = packet := Subtype.ext hchunk
      rw [handleClientReqsTcp_cons hmade, ih (made_tail hmade) hrest,
        Buff.overwrite_of_whole _ hwhole, hpacket]
      rfl

end Loop

/-! ## Connections -/

variable {conn : Connection} {clientIp : UInt32}

theorem length_dispatched : (conn.dispatched clientIp).length = conn.chunks.length := by
  rw [Connection.dispatched, length_handleClientReqsTcp conn.made, Connection.chunks,
    List.length_map]

theorem length_le_of_mem_chunks : ∀ chunk ∈ conn.chunks, chunk.length ≤ 56 := by
  intro chunk hchunk
  obtain ⟨turn, _, rfl⟩ := List.mem_map.mp hchunk
  exact turn.chunk.2.2

/-- **The requests dispatched are the requests sent exactly when every read returned a whole
message.** -/
theorem dispatched_eq_sent_iff (conn : Connection) (clientIp : UInt32) (sent : List Buff)
    (hstream : conn.chunks.flatten = (sent.map (·.1)).flatten) :
    conn.dispatched clientIp = sent.map (·.msg.setIpFromNet clientIp) ↔
      ∀ chunk ∈ conn.chunks, chunk.length = 56 := by
  have hsent : ∀ bytes ∈ sent.map (·.1), bytes.length = 56 := by
    intro bytes hbytes
    obtain ⟨packet, _, rfl⟩ := List.mem_map.mp hbytes
    exact packet.2
  constructor
  · intro h
    rw [← length_eq_iff_whole (by decide) length_le_of_mem_chunks hsent hstream,
      ← length_dispatched, h, List.length_map, List.length_map]
  · intro hwhole
    exact handleClientReqsTcp_of_whole conn.made (eq_of_whole (by decide) hwhole hsent hstream)

/-- The container 23 of the node asks to be added. -/
def addRequest : Msg := msgOf 23 initReq 10000000 1

/-- Two requests of the container, each in one read. -/
def wholeReads : Connection where
  turns := [⟨⟨addRequest.bytes.1, by decide⟩, some (.allocInit, addRequest), true⟩,
    ⟨⟨(msgOf 23 memReq 50 1).bytes.1, by decide⟩, none, true⟩]
  made := by decide

theorem wholeReads_dispatched :
    wholeReads.dispatched node.addr =
      [addRequest.bytes, (msgOf 23 memReq 50 1).bytes].map (·.msg.setIpFromNet node.addr) :=
  (dispatched_eq_sent_iff wholeReads node.addr
    [addRequest.bytes, (msgOf 23 memReq 50 1).bytes] rfl).mpr (by decide)

/-- The first request alone, in two reads of 28 bytes. -/
def splitRead : Connection where
  turns := [⟨⟨addRequest.bytes.1.take 28, by decide⟩, some (.allocInit, addRequest), true⟩,
    ⟨⟨addRequest.bytes.1.drop 28, by decide⟩, none, true⟩]
  made := by decide

/-- One request was sent; a request with another sequence number and a CPU report of a container 0
are dispatched. -/
theorem splitRead_dispatched :
    splitRead.chunks.flatten = [addRequest.bytes.1].flatten ∧
      [addRequest.bytes].map (·.msg.setIpFromNet node.addr) = [addRequest] ∧
      addRequest = ⟨node, 23, initReq, 10000000, 1, 0, 1⟩ ∧
      splitRead.dispatched node.addr =
        [⟨node, 23, initReq, 10000000, 1, 0, 0⟩, ⟨node, 0, cpuReq, 0, 0, 0, 0⟩] ∧
      splitRead.dispatched node.addr ≠
        [addRequest.bytes].map (·.msg.setIpFromNet node.addr) := by
  decide +kernel

end EcGcm
