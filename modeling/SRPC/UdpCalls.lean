import Mathlib.Data.List.Forall2
import SRPC.IndexedLists
import SRPC.TransitionRuns
import SRPC.UdpClient

/-!
# Callers that share a marshal

`current_req` and `current_reply` are members, so the calls of all threads that
use one client or one connection go to the same marshal.
-/

namespace SRPC.Dpdk

open LittleEndian Marshalling TransportMarshal

/-- A request with its `rpc_id` or a reply with its error code, as the caller
means it. -/
structure Draft where
  xid : BitVec 64
  code : BitVec 32
  values : List Argument

namespace Draft

/-- What the caller means to send. -/
def body (draft : Draft) : List Byte :=
  idBytes draft.xid draft.code ++ draft.values.flatMap encodeArgument

def add (draft : Draft) (value : Argument) : Draft :=
  { draft with values := draft.values ++ [value] }

theorem body_add (draft : Draft) (value : Argument) :
    (draft.add value).body = draft.body ++ encodeArgument value := by
  simp [body, add]

theorem body_nil (xid : BitVec 64) (code : BitVec 32) :
    (⟨xid, code, []⟩ : Draft).body = idBytes xid code := by
  simp [body]

/-- The packet has room for it. -/
def Fits (draft : Draft) : Prop := bodyOffset + draft.body.length ≤ dataRoom

instance (draft : Draft) : Decidable draft.Fits :=
  inferInstanceAs (Decidable (_ ≤ _))

end Draft

inductive RequestCall
  | beginRequest (caller : Nat) (rpcId : BitVec 32) (data : ByteArea)
  | put (caller : Nat) (argument : Argument)
  | endRequest (caller : Nat) (tries : Nat)

/-- A client, with the request that each caller has begun. -/
structure SharedClient where
  pool : Pool
  client : UdpClient
  opened : List (Nat × Draft)

namespace SharedClient

def step (shared : SharedClient) :
    RequestCall → Option (List Draft × SharedClient)
  | .beginRequest caller rpcId data => do
    let (_, pool, client) ← shared.client.beginRequest shared.pool data rpcId
    return ([], ⟨pool, client, (caller, ⟨shared.client.xidCounter, rpcId, []⟩) :: shared.opened⟩)
  | .put caller argument => do
    let (pool, client) ← shared.client.put shared.pool argument
    return ([], ⟨pool, client, shared.opened.map fun entry =>
      if entry.1 = caller then (caller, entry.2.add argument) else entry⟩)
  | .endRequest caller tries => do
    let (pool, client) ← shared.client.endRequest shared.pool tries
    let draft ← shared.opened.lookup caller
    return ([draft], ⟨pool, client, shared.opened.filter fun entry => entry.1 ≠ caller⟩)

/-- Each caller begins a request, adds arguments and ends it. -/
def Allows (shared : SharedClient) : RequestCall → Prop
  | .beginRequest caller _ _ => shared.opened.lookup caller = none
  | .put caller _ => (shared.opened.lookup caller).isSome
  | .endRequest caller _ => (shared.opened.lookup caller).isSome

/-- No request is begun before the last one is ended, and the arguments fit
into the packet. -/
def Alone (shared : SharedClient) : RequestCall → Prop
  | .beginRequest _ _ _ => shared.opened = []
  | .put caller argument => ∀ draft ∈ shared.opened.lookup caller, (draft.add argument).Fits
  | .endRequest _ _ => True

instance decidableAllows (shared : SharedClient) :
    ∀ call, Decidable (shared.Allows call)
  | .beginRequest _ _ _ => decidable_of_iff _ Option.isNone_iff_eq_none
  | .put _ _ | .endRequest _ _ => inferInstanceAs (Decidable (_ = true))

instance decidableAlone (shared : SharedClient) :
    ∀ call, Decidable (shared.Alone call)
  | .beginRequest _ _ _ => decidable_of_iff _ List.isEmpty_iff
  | .put _ _ => inferInstanceAs (Decidable (∀ _ ∈ _, _))
  | .endRequest _ _ => inferInstanceAs (Decidable True)

end SharedClient

inductive ReplyCall
  | receive (data : ByteArea)
  | beginReply (caller : Nat) (req : TransportMarshal) (xid : BitVec 64)
      (errorCode : BitVec 32) (data : ByteArea)
  | put (caller : Nat) (result : Argument)
  | endReply (caller : Nat) (tries : Nat)

/-- What `end_reply` is to have done: a reply to a background request is
enqueued, any other is in the buffer of its request. -/
inductive ReplyEvent
  | enqueued (reply : Draft)
  | inPlace (pkt : Nat) (reply : Draft)

/-- A connection with the buffers of requests to be answered and the replies
that are begun and not ended.  A reply in place is kept with its buffer. -/
structure SharedConnection where
  pool : Pool
  sconn : UdpConnection
  requests : List Nat
  opened : List (Nat × Option Nat × Draft)

namespace SharedConnection

def step (shared : SharedConnection) :
    ReplyCall → Option (List ReplyEvent × SharedConnection)
  | .receive data =>
    let (pkt, pool) := shared.pool.alloc data
    some ([], { shared with pool := pool, requests := pkt :: shared.requests })
  | .beginReply caller req xid errorCode data => do
    let single ← isTypeSt shared.pool req
    let pkt ← req.reqData
    let (pool, sconn) ← shared.sconn.beginReply shared.pool data req xid errorCode
    return ([], ⟨pool, sconn, shared.requests.erase pkt,
      (caller, if single then some pkt else none, ⟨xid, errorCode, []⟩) :: shared.opened⟩)
  | .put caller result => do
    let (pool, sconn) ← shared.sconn.put shared.pool result
    return ([], { shared with
      pool := pool
      sconn := sconn
      opened := shared.opened.map fun entry =>
        if entry.1 = caller then (caller, entry.2.1, entry.2.2.add result)
        else entry })
  | .endReply caller tries => do
    let (pool, sconn) ← shared.sconn.endReply shared.pool tries
    let (place, draft) ← shared.opened.lookup caller
    let event := match place with
      | none => .enqueued draft
      | some pkt => .inPlace pkt draft
    return ([event], { shared with
      pool := pool
      sconn := sconn
      opened := shared.opened.filter fun entry => entry.1 ≠ caller })

/-- Each handler answers a request that was received and not answered yet. -/
def Allows (shared : SharedConnection) : ReplyCall → Prop
  | .receive _ => True
  | .beginReply caller req _ _ _ => shared.opened.lookup caller = none ∧
      ∃ pkt ∈ shared.requests, req.reqData = some pkt
  | .put caller _ => (shared.opened.lookup caller).isSome
  | .endReply caller _ => (shared.opened.lookup caller).isSome

/-- No reply is begun before the last one is ended, and the results fit into
the packet. -/
def Alone (shared : SharedConnection) : ReplyCall → Prop
  | .beginReply _ _ _ _ _ => shared.opened = []
  | .put caller result => ∀ entry ∈ shared.opened.lookup caller, (entry.2.add result).Fits
  | _ => True

instance decidableAllows (shared : SharedConnection) :
    ∀ call, Decidable (shared.Allows call)
  | .receive _ => inferInstanceAs (Decidable True)
  | .beginReply _ _ _ _ _ =>
    @instDecidableAnd _ _ (decidable_of_iff _ Option.isNone_iff_eq_none)
      (inferInstanceAs (Decidable (∃ _ ∈ _, _)))
  | .put _ _ | .endReply _ _ => inferInstanceAs (Decidable (_ = true))

instance decidableAlone (shared : SharedConnection) :
    ∀ call, Decidable (shared.Alone call)
  | .receive _ | .endReply _ _ => inferInstanceAs (Decidable True)
  | .beginReply _ _ _ _ _ => decidable_of_iff _ List.isEmpty_iff
  | .put _ _ => inferInstanceAs (Decidable (∀ _ ∈ _, _))

end SharedConnection

/-- Each buffer is enqueued once, and the buffers carry these bodies in
order. -/
structure Delivers (pool : Pool) (pktType : Byte) (ring : List (Nat × Nat))
    (bodies : List (List Byte)) : Prop where
  carries : List.Forall₂ (fun entry body => (pool.mbuf entry.2).Carries pktType body) ring bodies
  once : (ring.map Prod.snd).Nodup

namespace Delivers

variable {pool pool' : Pool} {pktType : Byte} {ring : List (Nat × Nat)} {bodies : List (List Byte)}

theorem nil (pool : Pool) (pktType : Byte) : Delivers pool pktType [] [] := ⟨.nil, List.nodup_nil⟩

theorem later (delivers : Delivers pool pktType ring bodies)
    (same : ∀ pkt ∈ ring.map Prod.snd, pool'.mbuf pkt = pool.mbuf pkt) :
    Delivers pool' pktType ring bodies := by
  refine ⟨?_, delivers.once⟩
  have both := (List.forall₂_and_left _ _).mpr
    ⟨fun entry member => same entry.2 (List.mem_map_of_mem member), delivers.carries⟩
  refine both.imp ?_
  rintro entry body ⟨unchanged, carries⟩
  rw [unchanged]
  exact carries

theorem enqueue (delivers : Delivers pool pktType ring bodies) (number : Nat)
    {pkt : Nat} {body : List Byte} (fresh : pkt ∉ ring.map Prod.snd)
    (carries : (pool.mbuf pkt).Carries pktType body) :
    Delivers pool pktType (ring ++ [(number, pkt)]) (bodies ++ [body]) := by
  refine ⟨List.rel_append delivers.carries (.cons carries .nil), ?_⟩
  rw [List.map_append]
  exact nodup_concat delivers.once fresh

end Delivers

end SRPC.Dpdk
