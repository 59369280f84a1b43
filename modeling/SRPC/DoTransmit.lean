import Mathlib.Data.List.Nodup
import Mathlib.Logic.Function.Basic
import SRPC.BusyPrefixes
import SRPC.PartialSends

/-!
# `do_transmit`

A thread first hands the replies in `tx_bufs` to the NIC, and then up to 32
packets from the ring of each of its connections.
-/

namespace SRPC.Dpdk

open PartialSends Function List

/-- The array `tx_bufs` of a thread with its first `nbTx` packets, the
connections in the order of the set, and the ring that each of them has for this
thread. -/
structure TxContext where
  txBufs : List Nat
  nbTx : Nat
  tConns : List Nat
  outBufring : Nat → List Nat
  distinct : tConns.Nodup

/-- The loop over the pending replies, which returns `nb_tx`. -/
def sendPending (txBufs : List Nat) :
    Nat → Nat → Nat → Device Nat → Option (Nat × Device Nat)
  | _, _, 0, nic => some (0, nic)
  | 0, _, _ + 1, _ => none
  | fuel + 1, prevPackets, nbTx + 1, nic =>
    let (sent, nic) := nic.offer ((txBufs.drop prevPackets).take (nbTx + 1))
    sendPending txBufs fuel (prevPackets + sent) (nbTx + 1 - sent) nic

/-- The loop `while (ret != nb_pkts)`. -/
def sendRest (txBufs : List Nat) (nbPkts : Nat) :
    Nat → Nat → Device Nat → Option (Device Nat)
  | 0, ret, nic => if ret = nbPkts then some nic else none
  | fuel + 1, ret, nic =>
    if ret = nbPkts then some nic
    else
      let (sent, nic) := nic.offer ((txBufs.drop ret).take (nbPkts - ret))
      sendRest txBufs nbPkts fuel (ret + sent) nic

/-- The loop over the connections.  A burst that does not fit is written behind
the end of `tx_bufs`. -/
def serve (fuel : Nat) :
    List Nat → List Nat → (Nat → List Nat) → Device Nat →
      Option (List Nat × (Nat → List Nat) × Device Nat)
  | [], txBufs, rings, nic => some (txBufs, rings, nic)
  | conn :: conns, txBufs, rings, nic =>
    let burst := (rings conn).take 32
    let rings := update rings conn ((rings conn).drop 32)
    if txBufs.length < burst.length then none
    else if burst.length = 0 then some (txBufs, rings, nic)
    else
      let txBufs := burst ++ txBufs.drop burst.length
      let (ret, nic) := nic.offer (txBufs.take burst.length)
      match sendRest txBufs burst.length fuel ret nic with
      | none => none
      | some nic => serve fuel conns txBufs rings nic

namespace TxContext

/-- `do_transmit`, with a limit to the calls that each loop makes. -/
def doTransmit (fuel : Nat) (ctx : TxContext) (nic : Device Nat) :
    Option (TxContext × Device Nat) := do
  let (nbTx, nic) ← sendPending ctx.txBufs fuel 0 ctx.nbTx nic
  let (txBufs, rings, nic) ← serve fuel ctx.tConns ctx.txBufs ctx.outBufring nic
  return ({ ctx with txBufs := txBufs, nbTx := nbTx, outBufring := rings }, nic)

/-- What was left over is sent, then up to 32 packets of each connection. -/
structure ServesAll (ctx : TxContext) (nic : Device Nat) (after : TxContext)
    (later : Device Nat) : Prop where
  sent : later.sent = nic.sent ++ ctx.txBufs.take ctx.nbTx ++
    ctx.tConns.flatMap fun conn => (ctx.outBufring conn).take 32
  nbTx : after.nbTx = 0
  rest : ∀ conn ∈ ctx.tConns, after.outBufring conn = (ctx.outBufring conn).drop 32
  others : ∀ conn, conn ∉ ctx.tConns → after.outBufring conn = ctx.outBufring conn

end TxContext

def window (txBufs : List Nat) (start count : Nat) : List Nat := (txBufs.drop start).take count

section Windows

variable {txBufs : List Nat} {start count : Nat}

theorem length_window (inside : start + count ≤ txBufs.length) :
    (window txBufs start count).length = count := by
  rw [window, length_take, length_drop]
  omega

theorem window_ne_nil (inside : start + (count + 1) ≤ txBufs.length) :
    window txBufs start (count + 1) ≠ [] := by
  apply ne_nil_of_length_pos
  rw [length_window inside]
  exact Nat.succ_pos count

theorem drop_window (sent : Nat) :
    (window txBufs start count).drop sent = window txBufs (start + sent) (count - sent) := by
  rw [window, window, drop_take, drop_drop]

end Windows

theorem sendPending_eq {txBufs : List Nat} (fuel : Nat) {prevPackets nbTx : Nat}
    (inside : prevPackets + nbTx ≤ txBufs.length) (nic : Device Nat) :
    sendPending txBufs fuel prevPackets nbTx nic =
      (sendAll fuel (window txBufs prevPackets nbTx) nic).map fun nic => (0, nic) := by
  induction fuel generalizing prevPackets nbTx nic with
  | zero =>
    cases nbTx with
    | zero => rfl
    | succ nbTx =>
      rw [sendAll_zero (window_ne_nil inside)]
      rfl
  | succ fuel ih =>
    cases nbTx with
    | zero => simp [sendPending, window]
    | succ nbTx =>
      have accepted := offer_le nic (window txBufs prevPackets (nbTx + 1))
      rw [length_window inside] at accepted
      have later : prevPackets + (nic.offer (window txBufs prevPackets (nbTx + 1))).1 +
            (nbTx + 1 - (nic.offer (window txBufs prevPackets (nbTx + 1))).1) ≤
          txBufs.length := by omega
      rw [sendAll_succ (window_ne_nil inside), drop_window]
      exact ih later _

theorem sendRest_eq {txBufs : List Nat} {nbPkts : Nat} (fuel : Nat) {ret : Nat}
    (notMore : ret ≤ nbPkts) (inside : nbPkts ≤ txBufs.length) (nic : Device Nat) :
    sendRest txBufs nbPkts fuel ret nic = sendAll fuel (window txBufs ret (nbPkts - ret)) nic := by
  induction fuel generalizing ret nic with
  | zero =>
    by_cases done : ret = nbPkts
    · simp [sendRest, done, window]
    · obtain ⟨left, leftEq⟩ : ∃ left, nbPkts - ret = left + 1 := ⟨nbPkts - ret - 1, by omega⟩
      rw [sendRest, if_neg done, leftEq, sendAll_zero (window_ne_nil (by omega))]
  | succ fuel ih =>
    by_cases done : ret = nbPkts
    · simp [sendRest, done, window]
    · obtain ⟨left, leftEq⟩ : ∃ left, nbPkts - ret = left + 1 := ⟨nbPkts - ret - 1, by omega⟩
      have accepted := offer_le nic (window txBufs ret (nbPkts - ret))
      rw [length_window (by omega)] at accepted
      have later : ret + (nic.offer (window txBufs ret (nbPkts - ret))).1 ≤ nbPkts := by
        omega
      have some : window txBufs ret (nbPkts - ret) ≠ [] := by
        rw [leftEq]
        exact window_ne_nil (by omega)
      rw [sendRest, if_neg done, sendAll_succ some, drop_window, Nat.sub_sub]
      exact ih later _

theorem sendBurst_eq {burst : List Nat} (some : burst ≠ [])
    (txBufs : List Nat) (fuel : Nat) (nic : Device Nat) :
    sendRest (burst ++ txBufs) burst.length fuel (nic.offer burst).1 (nic.offer burst).2 =
      sendAll (fuel + 1) burst nic := by
  have tail : window (burst ++ txBufs) (nic.offer burst).1 (burst.length - (nic.offer burst).1) =
        burst.drop (nic.offer burst).1 := by
    rw [window, drop_append_of_le_length (offer_le nic burst),
      take_append_of_le_length (by simp), take_of_length_le (by simp)]
  rw [sendRest_eq fuel (offer_le nic burst) (by simp), tail, sendAll_succ some]

/-- The connections before the first empty ring, where the loop is left. -/
def served (rings : Nat → List Nat) (conns : List Nat) : List Nat :=
  conns.takeWhile fun conn => decide (rings conn ≠ [])

/-- What is left in the ring of a connection. -/
def remaining (rings : Nat → List Nat) (conns : List Nat) (conn : Nat) : List Nat :=
  if conn ∈ served rings conns then (rings conn).drop 32 else rings conn

section Serving

variable {fuel : Nat} {conns : List Nat} {txBufs : List Nat} {rings : Nat → List Nat}
  {nic : Device Nat} {conn : Nat}

theorem served_cons_of_empty (empty : rings conn = []) : served rings (conn :: conns) = [] := by
  simp [served, empty]

theorem served_cons (some : rings conn ≠ []) :
    served rings (conn :: conns) = conn :: served rings conns := by
  simp [served, some]

theorem served_update (absent : conn ∉ conns) (ring : List Nat) :
    served (update rings conn ring) conns = served rings conns := by
  induction conns with
  | nil => rfl
  | cons other conns ih =>
    have different : other ≠ conn := fun same =>
      absent (same ▸ mem_cons_self)
    have rest := ih fun member => absent (mem_cons_of_mem _ member)
    by_cases empty : rings other = []
    · rw [served_cons_of_empty empty, served_cons_of_empty (by rw [update_of_ne different, empty])]
    · rw [served_cons empty, served_cons, rest]
      rwa [update_of_ne different]

theorem serve_cons_of_empty (empty : rings conn = []) :
    serve fuel (conn :: conns) txBufs rings nic = some (txBufs, rings, nic) := by
  have same : update rings conn [] = rings := by
    rw [← empty, update_eq_self]
  simp [serve, empty, same]

theorem serve_cons (some : rings conn ≠ []) (fits : ((rings conn).take 32).length ≤ txBufs.length) :
    serve fuel (conn :: conns) txBufs rings nic =
      (sendAll (fuel + 1) ((rings conn).take 32) nic).bind fun nic =>
        serve fuel conns ((rings conn).take 32 ++ txBufs.drop ((rings conn).take 32).length)
          (update rings conn ((rings conn).drop 32)) nic := by
  have burst : (rings conn).take 32 ≠ [] := by simpa using some
  have positive : ((rings conn).take 32).length ≠ 0 := by
    rwa [Ne, length_eq_zero_iff]
  rw [serve, if_neg (Nat.not_lt.mpr fits), if_neg positive]
  dsimp only
  rw [take_left, ← sendBurst_eq burst (txBufs.drop _)]
  cases sendRest _ _ fuel (nic.offer ((rings conn).take 32)).1
    (nic.offer ((rings conn).take 32)).2 <;> rfl

theorem remaining_of_served_nil (none : served rings conns = []) :
    remaining rings conns = rings := by
  funext conn
  rw [remaining, none, if_neg not_mem_nil]

theorem remaining_cons (absent : conn ∉ conns) (some : rings conn ≠ []) :
    remaining (update rings conn ((rings conn).drop 32)) conns =
      remaining rings (conn :: conns) := by
  funext other
  rw [remaining, remaining, served_update absent, served_cons some]
  by_cases same : other = conn
  · subst same
    have notServed : other ∉ served rings conns := fun member =>
      absent (takeWhile_subset _ member)
    simp [notServed]
  · simp [same]

theorem serve_served (distinct : conns.Nodup) (fair : Fair nic.accepts)
    (fits : ∀ conn ∈ served rings conns, ((rings conn).take 32).length ≤ txBufs.length) :
    ∃ enough bufs later, later.sent = nic.sent ++
        (served rings conns).flatMap (fun conn => (rings conn).take 32) ∧
      ∀ fuel, enough ≤ fuel → serve fuel conns txBufs rings nic =
        some (bufs, remaining rings conns, later) := by
  induction conns generalizing txBufs rings nic with
  | nil =>
    refine ⟨0, txBufs, nic, by simp [served], fun fuel _ => ?_⟩
    rw [serve, remaining_of_served_nil rfl]
  | cons conn conns ih =>
    obtain ⟨absent, others⟩ := nodup_cons.mp distinct
    by_cases empty : rings conn = []
    · refine ⟨0, txBufs, nic, ?_, fun fuel _ => ?_⟩
      · rw [served_cons_of_empty empty, flatMap_nil, append_nil]
      · rw [serve_cons_of_empty empty, remaining_of_served_nil (served_cons_of_empty empty)]
    · rw [served_cons empty] at fits ⊢
      have fitsHere := fits conn mem_cons_self
      have unchanged : ∀ other ∈ served rings conns,
          update rings conn ((rings conn).drop 32) other = rings other := by
        intro other member
        have different : other ≠ conn := fun same =>
          absent (same ▸ takeWhile_subset _ member)
        rw [update_of_ne different]
      have fitsLater : ∀ other ∈ served (update rings conn ((rings conn).drop 32)) conns,
          ((update rings conn ((rings conn).drop 32) other).take
            32).length ≤ ((rings conn).take 32 ++
              txBufs.drop ((rings conn).take 32).length).length := by
        rw [served_update absent]
        intro other member
        have fitsOther := fits other (mem_cons_of_mem _ member)
        rw [unchanged other member, length_append, length_drop]
        omega
      obtain ⟨calls, middle, accepts, sent, sentAll⟩ := sendAll_fair ((rings conn).take 32) fair
      rw [← accepts] at fair
      obtain ⟨enough, bufs, later, laterSent, servedEq⟩ := ih others fair fitsLater
      refine ⟨max calls enough, bufs, later, ?_, fun fuel le => ?_⟩
      · rw [laterSent, sent, served_update absent, flatMap_cons, append_assoc]
        congr 2
        exact flatMap_congr fun other member => by
          rw [unchanged other member]
      · rw [serve_cons empty fitsHere, sentAll (fuel + 1) (by omega),
          Option.bind_some, servedEq fuel (by omega), remaining_cons absent empty]

theorem fits_of_serve (distinct : conns.Nodup) {result : List Nat × (Nat → List Nat) × Device Nat}
    (ended : serve fuel conns txBufs rings nic = some result) :
    ∀ conn ∈ served rings conns, ((rings conn).take 32).length ≤ txBufs.length := by
  induction conns generalizing txBufs rings nic with
  | nil => simp [served]
  | cons conn conns ih =>
    obtain ⟨absent, others⟩ := nodup_cons.mp distinct
    by_cases empty : rings conn = []
    · simp [served_cons_of_empty empty]
    · have fitsHere : ((rings conn).take 32).length ≤ txBufs.length := by
        by_contra tooLong
        rw [serve, if_pos (Nat.lt_of_not_le tooLong)] at ended
        cases ended
      rw [serve_cons empty fitsHere, Option.bind_eq_some_iff] at ended
      obtain ⟨middle, -, rest⟩ := ended
      have fitsLater := ih others rest
      rw [served_update absent] at fitsLater
      rw [served_cons empty]
      intro other member
      obtain rfl | later := mem_cons.mp member
      · exact fitsHere
      · have different : other ≠ conn := fun same =>
          absent (same ▸ takeWhile_subset _ later)
        have fitsOther := fitsLater other later
        rw [update_of_ne different, length_append, length_drop] at fitsOther
        omega

/-- No empty ring comes before one that is not. -/
def NoGap (rings : Nat → List Nat) (conns : List Nat) : Prop :=
  conns.Pairwise fun conn other => rings conn = [] → rings other = []

instance (rings : Nat → List Nat) (conns : List Nat) : Decidable (NoGap rings conns) :=
  inferInstanceAs (Decidable (conns.Pairwise _))

theorem noGap_iff_busyPrefixes :
    NoGap rings conns ↔
      BusyPrefixes.NoGap (fun conn => decide (rings conn ≠ [])) conns := by
  simp [NoGap, BusyPrefixes.NoGap]

theorem noGap_iff (distinct : conns.Nodup) :
    NoGap rings conns ↔
      ∀ conn ∈ conns, conn ∈ served rings conns ∨ rings conn = [] := by
  rw [noGap_iff_busyPrefixes, BusyPrefixes.noGap_iff]
  have whole : served rings conns ++
      conns.dropWhile (fun conn => decide (rings conn ≠ [])) = conns := takeWhile_append_dropWhile
  constructor
  · intro idle conn member
    rw [← whole] at member
    obtain early | late := mem_append.mp member
    · exact .inl early
    · exact .inr (by simpa using idle conn late)
  · intro idle conn late
    obtain early | empty := idle conn ((dropWhile_sublist _).subset late)
    · rw [← whole] at distinct
      exact absurd late (disjoint_of_nodup_append distinct early)
    · simp [empty]

theorem flatMap_served (noGap : NoGap rings conns) :
    (served rings conns).flatMap (fun conn => (rings conn).take 32) =
      conns.flatMap fun conn => (rings conn).take 32 := by
  refine BusyPrefixes.flatMap_takeWhile (fun conn idle => ?_) (noGap_iff_busyPrefixes.mp noGap)
  have empty : rings conn = [] := by simpa using idle
  rw [empty, take_nil]

end Serving

namespace TxContext

variable {ctx : TxContext} {nic : Device Nat}

theorem doTransmit_eq (pending : ctx.nbTx ≤ ctx.txBufs.length) (fair : Fair nic.accepts)
    (fits : ∀ conn ∈ served ctx.outBufring ctx.tConns,
      ((ctx.outBufring conn).take 32).length ≤ ctx.txBufs.length) :
    ∃ enough bufs later, later.sent = nic.sent ++ ctx.txBufs.take ctx.nbTx ++
        (served ctx.outBufring ctx.tConns).flatMap (fun conn => (ctx.outBufring conn).take 32) ∧
      ∀ fuel, enough ≤ fuel → ctx.doTransmit fuel nic =
        some ({ ctx with
          txBufs := bufs
          nbTx := 0
          outBufring := remaining ctx.outBufring ctx.tConns }, later) := by
  obtain ⟨calls, middle, accepts, sent, sentAll⟩ := sendAll_fair (window ctx.txBufs 0 ctx.nbTx) fair
  rw [← accepts] at fair
  obtain ⟨enough, bufs, later, laterSent, servedEq⟩ := serve_served ctx.distinct fair fits
  refine ⟨max calls enough, bufs, later, ?_, fun fuel le => ?_⟩
  · rw [laterSent, sent, window, drop_zero]
  · rw [doTransmit, sendPending_eq fuel (by omega), sentAll fuel (by omega)]
    simp only [Option.map_some, Option.bind_eq_bind, Option.bind_some, servedEq fuel (by omega)]
    rfl

/-- Every connection is served if and only if none with an empty ring comes
before one with packets to send, and every burst fits into `tx_bufs`. -/
theorem transmit_serves_every_connection_iff (ctx : TxContext)
    (nic : Device Nat) (pending : ctx.nbTx ≤ ctx.txBufs.length) (fair : Fair nic.accepts) :
    (∃ enough, ∀ fuel, enough ≤ fuel → ∃ after later,
        ctx.doTransmit fuel nic = some (after, later) ∧
        ctx.ServesAll nic after later) ↔
      NoGap ctx.outBufring ctx.tConns ∧ ∀ conn ∈ ctx.tConns,
        min 32 (ctx.outBufring conn).length ≤ ctx.txBufs.length := by
  constructor
  · rintro ⟨enough, serves⟩
    obtain ⟨after, later, transmitted, -⟩ := serves enough (Nat.le_refl _)
    simp only [doTransmit, Option.bind_eq_bind, Option.bind_eq_some_iff]
      at transmitted
    obtain ⟨pending', -, result, servedEq, -⟩ := transmitted
    have fits := fits_of_serve ctx.distinct servedEq
    obtain ⟨calls, bufs, later, sent, transmits⟩ := doTransmit_eq pending fair fits
    obtain ⟨after, other, transmitted, all⟩ := serves (max enough calls) (Nat.le_max_left _ _)
    rw [transmits _ (Nat.le_max_right _ _)] at transmitted
    cases transmitted
    have idle : ∀ conn ∈ ctx.tConns,
        conn ∈ served ctx.outBufring ctx.tConns ∨ ctx.outBufring conn = [] := by
      intro conn member
      by_cases inside : conn ∈ served ctx.outBufring ctx.tConns
      · exact .inl inside
      · have rest := all.rest conn member
        dsimp only at rest
        rw [remaining, if_neg inside] at rest
        have shorter := congrArg List.length rest
        rw [length_drop] at shorter
        exact .inr (length_eq_zero_iff.mp (by omega))
    refine ⟨(noGap_iff ctx.distinct).mpr idle, fun conn member => ?_⟩
    obtain inside | empty := idle conn member
    · have burst := fits conn inside
      rwa [length_take] at burst
    · simp [empty]
  · rintro ⟨noGap, fits⟩
    have idle := (noGap_iff ctx.distinct).mp noGap
    have inside : ∀ conn ∈ served ctx.outBufring ctx.tConns, conn ∈ ctx.tConns :=
      fun conn member => takeWhile_subset _ member
    obtain ⟨enough, bufs, later, sent, transmits⟩ :=
      doTransmit_eq pending fair fun conn member => by
        rw [length_take]
        exact fits conn (inside conn member)
    refine ⟨enough, fun fuel le => ⟨_, later, transmits fuel le, ?_, rfl, ?_, ?_⟩⟩
    · rw [sent, flatMap_served noGap]
    · intro conn member
      dsimp only
      rw [remaining]
      obtain served | empty := idle conn member
      · rw [if_pos served]
      · simp [empty]
    · intro conn absent
      dsimp only
      rw [remaining, if_neg fun member => absent (inside conn member)]

def busyContext : TxContext where
  txBufs := [1, 2, 0]
  nbTx := 2
  tConns := [5, 6, 7]
  outBufring := fun conn => if conn = 5 then [3, 4] else
    if conn = 6 then [8] else []
  distinct := by decide

/-- The NIC takes one packet at a time. -/
theorem transmit_serves_every_connection_busy :
    ∃ enough, ∀ fuel, enough ≤ fuel → ∃ after later,
      busyContext.doTransmit fuel ⟨fun _ => 1, 0, []⟩ = some (after, later) ∧
      busyContext.ServesAll ⟨fun _ => 1, 0, []⟩ after later :=
  (transmit_serves_every_connection_iff busyContext ⟨fun _ => 1, 0, []⟩
    (by decide) (fair_of_pos fun _ => Nat.one_pos)).mpr (by decide)

/-- The first connection is idle, and the packet of the second one stays. -/
theorem idle_connection_ends_transmission :
    ∃ after later,
      doTransmit 1 ⟨[0], 0, [5, 6], fun conn => if conn = 5 then [] else [8],
          by decide⟩ ⟨fun _ => 32, 0, []⟩ = some (after, later) ∧
      later.sent = [] ∧ after.outBufring 6 = [8] := ⟨_, _, rfl, rfl, by decide⟩

end TxContext

end SRPC.Dpdk
