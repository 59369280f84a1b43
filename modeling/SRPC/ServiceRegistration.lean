import Mathlib.Algebra.Group.Nat.Defs
import Mathlib.Logic.Function.Basic
import SRPC.IndexedLists

/-!
# Registration of services

`rpcgen` numbers the functions of a file, and the generated `__reg_to__` enters
the functions of one service into a table of the server under their numbers.
-/

namespace SRPC.Registration

open Function List

/-- The service is generated for `Marshal` or for `TransportMarshal`. -/
inductive Transport
  | tcp
  | dpdk
  deriving DecidableEq

structure RpcFunction where
  name : String
  raw : Bool
  deriving DecidableEq

def RpcFunction.svcFunc (func : RpcFunction) : String :=
  if func.raw then func.name else "__" ++ func.name ++ "__wrapper__"

/-- A service of a `.rpc` file, with the function objects that `reg` makes of
its member functions. -/
structure Service (Func : Type*) where
  name : String
  functions : List RpcFunction
  bind : String → Func

variable {Func : Type*}

def Service.keys (service : Service Func) : List String :=
  service.functions.map fun func => service.name ++ "." ++ func.name

/-- A `dict`. -/
abbrev RpcTable := String → Option Nat

/-- The body of the loop in `generate_rpc_table`, with `c`. -/
def assign (state : RpcTable × Nat) (key : String) : RpcTable × Nat :=
  let rpcCode := state.2 + 0x1
  (update state.1 key (some rpcCode), state.2 + 0x1)

/-- `generate_rpc_table`. -/
def generateRpcTable (services : List (Service Func)) : RpcTable :=
  (services.foldl (fun state service => service.keys.foldl assign state)
    (fun _ => none, 0x10000000)).1

/-- The `enum` of a service, with what is registered under each number.  A
missing key is an exception of the generator. -/
def Service.numbered (service : Service Func) (rpcTable : RpcTable) :
    Option (List (BitVec 32 × Func)) :=
  service.functions.mapM fun func =>
    (rpcTable (service.name ++ "." ++ func.name)).map fun rpcCode =>
      (BitVec.ofNat 32 rpcCode, service.bind func.svcFunc)

structure Server (Func : Type*) where
  handlers : BitVec 32 → Option Func
  usHandlers : BitVec 32 → Option Func
  svcRegistered : Bool

namespace Server

def eexist : BitVec 32 := 17

def table (server : Server Func) : Transport → BitVec 32 → Option Func
  | .tcp => server.handlers
  | .dpdk => server.usHandlers

/-- The two overloads of `reg`, by the type of the request. -/
def reg (server : Server Func) (rpcId : BitVec 32) (func : Func) :
    Transport → BitVec 32 × Server Func
  | .tcp =>
    if (server.handlers rpcId).isSome then (eexist, server)
    else (0, { server with
      handlers := update server.handlers rpcId (some func) })
  | .dpdk =>
    if (server.usHandlers rpcId).isSome then (eexist, server)
    else (0, { server with
      usHandlers := update server.usHandlers rpcId (some func) })

/-- Removes the number from both tables. -/
def unreg (server : Server Func) (rpcId : BitVec 32) : Server Func :=
  { server with
    handlers := update server.handlers rpcId none
    usHandlers := update server.usHandlers rpcId none }

/-- `__reg_to__` up to `return 0` or `goto err`. -/
def regAll (server : Server Func) (transport : Transport) :
    List (BitVec 32 × Func) → BitVec 32 × Server Func
  | [] => (0, server)
  | (rpcId, func) :: functions =>
    let (ret, server) := server.reg rpcId func transport
    if ret ≠ 0 then (ret, server) else server.regAll transport functions

/-- The generated `__reg_to__`. -/
def regTo (server : Server Func) (transport : Transport)
    (functions : List (BitVec 32 × Func)) : BitVec 32 × Server Func :=
  let (ret, server) := server.regAll transport functions
  if ret = 0 then (0, server)
  else (ret, (functions.map Prod.fst).foldl unreg server)

/-- `reg` of a service. -/
def regService (server : Server Func) (transport : Transport)
    (functions : List (BitVec 32 × Func)) : BitVec 32 × Server Func :=
  let (ret, server) := server.regTo transport functions
  (ret, if ret = 0 then { server with svcRegistered := true } else server)

variable {server : Server Func} {transport : Transport} {rpcId : BitVec 32} {func : Func}

theorem reg_taken (taken : server.table transport rpcId ≠ none) :
    server.reg rpcId func transport = (eexist, server) := by
  have isSome := Option.isSome_iff_ne_none.mpr taken
  cases transport <;> exact if_pos isSome

theorem reg_free (func : Func) (free : server.table transport rpcId = none) :
    ∃ next, server.reg rpcId func transport = (0, next) ∧
      next.table transport = update (server.table transport) rpcId (some func) ∧
      ∀ other ≠ transport, next.table other = server.table other := by
  cases transport with
  | tcp =>
    refine ⟨_, if_neg (by simp [show server.handlers rpcId = none from free]),
      rfl, ?_⟩
    intro other different
    cases other <;> first | rfl | exact absurd rfl different
  | dpdk =>
    refine ⟨_, if_neg (by simp [show server.usHandlers rpcId = none from free]),
      rfl, ?_⟩
    intro other different
    cases other <;> first | rfl | exact absurd rfl different

/-- The ids are distinct and not taken. -/
def Free (server : Server Func) (transport : Transport) (rpcIds : List (BitVec 32)) : Prop :=
  rpcIds.Nodup ∧ ∀ rpcId ∈ rpcIds, server.table transport rpcId = none

theorem free_cons {next : Server Func} (rpcIds : List (BitVec 32))
    (free : server.table transport rpcId = none)
    (entered : next.table transport = update (server.table transport) rpcId (some func)) :
    server.Free transport (rpcId :: rpcIds) ↔ next.Free transport rpcIds := by
  have elsewhere : ∀ other, other ≠ rpcId →
      next.table transport other = server.table transport other :=
    fun other different => by rw [entered, update_of_ne different]
  constructor
  · rintro ⟨nodup, allFree⟩
    obtain ⟨fresh, nodup⟩ := nodup_cons.mp nodup
    refine ⟨nodup, fun other member => ?_⟩
    rw [elsewhere other (fun same => fresh (same ▸ member))]
    exact allFree other (mem_cons_of_mem _ member)
  · rintro ⟨nodup, allFree⟩
    have fresh : ∀ other ∈ rpcIds, other ≠ rpcId := by
      rintro _ member rfl
      have stillFree := allFree _ member
      simp [entered] at stillFree
    refine ⟨nodup_cons.mpr ⟨fun member => fresh _ member rfl, nodup⟩, ?_⟩
    intro other member
    obtain rfl | member := mem_cons.mp member
    · exact free
    · rw [← elsewhere other (fresh other member)]
      exact allFree other member

/-- Nothing has changed but what the table has under these numbers. -/
structure Unchanged (server next : Server Func) (transport : Transport)
    (rpcIds : List (BitVec 32)) : Prop where
  elsewhere : ∀ rpcId ∉ rpcIds,
    next.table transport rpcId = server.table transport rpcId
  other : ∀ other ≠ transport, next.table other = server.table other

theorem regAll_spec (server : Server Func) (transport : Transport)
    (functions : List (BitVec 32 × Func)) :
    ∃ next, server.Unchanged next transport (functions.map Prod.fst) ∧
      (server.Free transport (functions.map Prod.fst) →
        server.regAll transport functions = (0, next) ∧
          ∀ entry ∈ functions, next.table transport entry.1 = some entry.2) ∧
      (¬ server.Free transport (functions.map Prod.fst) →
        server.regAll transport functions = (eexist, next)) := by
  induction functions generalizing server with
  | nil =>
    refine ⟨server, ⟨fun _ _ => rfl, fun _ _ => rfl⟩, ?_, ?_⟩
    · exact fun _ => ⟨rfl, by simp⟩
    · exact fun taken => absurd ⟨nodup_nil, by simp⟩ taken
  | cons entry functions ih =>
    obtain ⟨rpcId, func⟩ := entry
    by_cases free : server.table transport rpcId = none
    · obtain ⟨first, regEq, entered, others⟩ := reg_free func free
      have freeIff := free_cons (functions.map Prod.fst) free entered
      obtain ⟨next, unchanged, registers, fails⟩ := ih first
      rw [map_cons, freeIff, regAll, regEq]
      refine ⟨next, ⟨?_, fun other different => ?_⟩, fun nextFree => ?_, fails⟩
      · intro other fresh
        rw [mem_cons, not_or] at fresh
        obtain ⟨different, fresh⟩ := fresh
        rw [unchanged.elsewhere other fresh, entered, update_of_ne different]
      · rw [unchanged.other other different, others other different]
      · obtain ⟨regAllEq, registered⟩ := registers nextFree
        refine ⟨regAllEq, fun other member => ?_⟩
        obtain rfl | member := mem_cons.mp member
        · have fresh := (nodup_cons.mp (freeIff.mpr nextFree).1).1
          rw [unchanged.elsewhere rpcId fresh, entered, update_self]
        · exact registered other member
    · refine ⟨server, ⟨fun _ _ => rfl, fun _ _ => rfl⟩, ?_, fun _ => ?_⟩
      · exact fun allFree => absurd (allFree.2 rpcId (by simp)) free
      · rw [regAll, reg_taken free]
        rfl

theorem foldl_unreg_table (server : Server Func) (transport : Transport)
    (rpcIds : List (BitVec 32)) (rpcId : BitVec 32) :
    (rpcIds.foldl unreg server).table transport rpcId =
      if rpcId ∈ rpcIds then none else server.table transport rpcId := by
  induction rpcIds generalizing server with
  | nil => simp
  | cons first rpcIds ih =>
    rw [foldl_cons, ih]
    have unregEq : (server.unreg first).table transport =
        update (server.table transport) first none := by
      cases transport <;> rfl
    by_cases same : rpcId = first
    · simp [unregEq, same]
    · simp [unregEq, same]

/-- Whether it has failed or not, a registration has done all or nothing. -/
structure Atomic (server : Server Func) (transport : Transport)
    (functions : List (BitVec 32 × Func)) (ret : BitVec 32) (next : Server Func) : Prop where
  failed : ret ≠ 0 → next.table = server.table
  registered : ret = 0 → ∀ entry ∈ functions, next.table transport entry.1 = some entry.2
  unchanged : ret = 0 → server.Unchanged next transport (functions.map Prod.fst)

variable {functions : List (BitVec 32 × Func)}

theorem regTo_free (free : server.Free transport (functions.map Prod.fst)) :
    ∃ next, server.regTo transport functions = (0, next) ∧
      server.Unchanged next transport (functions.map Prod.fst) ∧
      ∀ entry ∈ functions, next.table transport entry.1 = some entry.2 := by
  obtain ⟨next, unchanged, registers, -⟩ := server.regAll_spec transport functions
  obtain ⟨regAllEq, registered⟩ := registers free
  refine ⟨next, ?_, unchanged, registered⟩
  rw [regTo, regAllEq]
  rfl

theorem regTo_taken (taken : ¬ server.Free transport (functions.map Prod.fst)) :
    ∃ next, server.regTo transport functions = (eexist, next) ∧
      ∀ table rpcId, next.table table rpcId =
        if rpcId ∈ functions.map Prod.fst then none
        else server.table table rpcId := by
  obtain ⟨next, unchanged, -, fails⟩ := server.regAll_spec transport functions
  refine ⟨(functions.map Prod.fst).foldl unreg next, ?_, fun table rpcId => ?_⟩
  · rw [regTo, fails taken]
    rfl
  · rw [foldl_unreg_table]
    split
    · rfl
    · rename_i fresh
      by_cases same : table = transport
      · subst same
        exact unchanged.elsewhere rpcId fresh
      · rw [unchanged.other table same]

/-- All numbers must be free in the table of the service; if one stands twice
in the service, they must be in no table. -/
theorem regTo_atomic_iff (server : Server Func) (transport : Transport)
    (functions : List (BitVec 32 × Func)) :
    server.Atomic transport functions (server.regTo transport functions).1
        (server.regTo transport functions).2 ↔
      (∀ rpcId ∈ functions.map Prod.fst, server.table transport rpcId = none) ∧
        ((functions.map Prod.fst).Nodup ∨
          ∀ rpcId ∈ functions.map Prod.fst, ∀ table, server.table table rpcId = none) := by
  by_cases free : server.Free transport (functions.map Prod.fst)
  · obtain ⟨next, regToEq, unchanged, registered⟩ := regTo_free free
    rw [regToEq]
    exact iff_of_true ⟨fun failed => absurd rfl failed, fun _ => registered, fun _ => unchanged⟩
      ⟨free.2, .inl free.1⟩
  · obtain ⟨next, regToEq, removed⟩ := regTo_taken free
    rw [regToEq]
    have failed : eexist ≠ 0 := by decide
    constructor
    · intro atomic
      have emptied : ∀ rpcId ∈ functions.map Prod.fst, ∀ table,
          server.table table rpcId = none := by
        intro rpcId member table
        rw [← atomic.failed failed, removed, if_pos member]
      exact ⟨fun rpcId member => emptied rpcId member transport, .inr emptied⟩
    · rintro ⟨transportFree, nodup | allFree⟩
      · exact absurd ⟨nodup, transportFree⟩ free
      · refine ⟨fun _ => ?_, fun ret => absurd ret failed, fun ret => absurd ret failed⟩
        funext table rpcId
        rw [removed]
        split
        · rename_i member
          exact (allFree rpcId member table).symm
        · rfl

end Server

section Numbers

variable {key : String}

theorem foldl_assign_fresh {keys : List String} (fresh : key ∉ keys) (state : RpcTable × Nat) :
    (keys.foldl assign state).1 key = state.1 key := by
  induction keys generalizing state with
  | nil => rfl
  | cons first keys ih =>
    rw [mem_cons, not_or] at fresh
    rw [foldl_cons, ih fresh.2]
    exact update_of_ne fresh.1 _ _

theorem foldl_assign_ne_none {keys : List String} (member : key ∈ keys) (state : RpcTable × Nat) :
    (keys.foldl assign state).1 key ≠ none := by
  induction keys generalizing state with
  | nil => cases member
  | cons first keys ih =>
    rw [foldl_cons]
    by_cases later : key ∈ keys
    · exact ih later _
    · obtain rfl | absurdMember := mem_cons.mp member
      · simp [foldl_assign_fresh later, assign]
      · exact absurd absurdMember later

theorem foldl_assign_idxOf {keys : List String} (nodup : keys.Nodup) (member : key ∈ keys)
    (state : RpcTable × Nat) :
    (keys.foldl assign state).1 key = some (state.2 + 1 + keys.idxOf key) := by
  induction keys generalizing state with
  | nil => cases member
  | cons first keys ih =>
    obtain ⟨fresh, nodup⟩ := nodup_cons.mp nodup
    rw [foldl_cons]
    obtain rfl | later := mem_cons.mp member
    · simp [foldl_assign_fresh fresh, assign]
    · have different : first ≠ key := fun same => fresh (same ▸ later)
      rw [ih nodup later, idxOf_cons_ne _ different, assign]
      exact congrArg some (by omega)

theorem generateRpcTable_eq (source : List (Service Func)) :
    generateRpcTable source =
      ((source.flatMap Service.keys).foldl assign (fun _ => none, 0x10000000)).1 := by
  rw [generateRpcTable, foldl_flatMap]

variable {source : List (Service Func)} {service : Service Func}

theorem Service.numbered_generateRpcTable (member : service ∈ source) :
    ∃ functions, service.numbered (generateRpcTable source) = some functions := by
  refine ⟨_, mapM_eq_some (g := fun func =>
    (BitVec.ofNat 32 ((generateRpcTable source (service.name ++ "." ++ func.name)).getD 0),
      service.bind func.svcFunc)) fun func funcMember => ?_⟩
  have keyMember : service.name ++ "." ++ func.name ∈ source.flatMap Service.keys :=
    mem_flatMap.mpr ⟨service, member, mem_map_of_mem funcMember⟩
  have assigned := foldl_assign_ne_none keyMember (fun _ => none, 0x10000000)
  rw [← generateRpcTable_eq] at assigned
  obtain ⟨rpcCode, found⟩ := Option.ne_none_iff_exists'.mp assigned
  rw [found]
  rfl

/-- The number of a function by its place in the file. -/
def rpcIdOf (source : List (Service Func)) (key : String) : BitVec 32 :=
  BitVec.ofNat 32 (0x10000001 + (source.flatMap Service.keys).idxOf key)

theorem Service.numbered_of_nodup (nodup : (source.flatMap Service.keys).Nodup)
    (member : service ∈ source) :
    service.numbered (generateRpcTable source) =
      some (service.functions.map fun func =>
        (rpcIdOf source (service.name ++ "." ++ func.name), service.bind func.svcFunc)) := by
  refine mapM_eq_some fun func funcMember => ?_
  have keyMember : service.name ++ "." ++ func.name ∈ source.flatMap Service.keys :=
    mem_flatMap.mpr ⟨service, member, mem_map_of_mem funcMember⟩
  rw [generateRpcTable_eq, foldl_assign_idxOf nodup keyMember]
  rfl

theorem rpcIdOf_injOn (short : (source.flatMap Service.keys).length ≤ 2 ^ 32) {other : String}
    (member : key ∈ source.flatMap Service.keys) (otherMember : other ∈ source.flatMap Service.keys)
    (same : rpcIdOf source key = rpcIdOf source other) : key = other := by
  have inside := idxOf_lt_length_of_mem member
  have otherInside := idxOf_lt_length_of_mem otherMember
  have sameNat := congrArg BitVec.toNat same
  simp only [rpcIdOf, BitVec.toNat_ofNat] at sameNat
  exact (idxOf_inj member).mp (by omega)

theorem Service.numbers_nodup (short : (source.flatMap Service.keys).length ≤ 2 ^ 32)
    (nodup : (source.flatMap Service.keys).Nodup) (member : service ∈ source)
    {functions : List (BitVec 32 × Func)}
    (numberedEq : service.numbered (generateRpcTable source) = some functions) :
    (functions.map Prod.fst).Nodup := by
  rw [Service.numbered_of_nodup nodup member] at numberedEq
  cases numberedEq
  have keysNodup : service.keys.Nodup := (nodup_flatMap.mp nodup).1 service member
  have numbers := List.Nodup.map_on (f := rpcIdOf source)
    (fun key keyMember other otherMember same => rpcIdOf_injOn short
      (mem_flatMap.mpr ⟨service, member, keyMember⟩)
      (mem_flatMap.mpr ⟨service, member, otherMember⟩) same) keysNodup
  simpa [Service.keys, comp_def] using numbers

/-- The services are registered one after the other, as long as none fails. -/
def Server.regEach (transport : Transport) (rpcTable : RpcTable) :
    Server Func → List (Service Func) → Option (Server Func)
  | server, [] => some server
  | server, service :: services => do
    let functions ← service.numbered rpcTable
    let (ret, next) := server.regService transport functions
    if ret = 0 then next.regEach transport rpcTable services else none

theorem Server.regEach_registers {transport : Transport}
    (nodup : (source.flatMap Service.keys).Nodup) {services : List (Service Func)}
    (part : services ⊆ source)
    (distinct : ((services.flatMap Service.keys).map (rpcIdOf source)).Nodup) (server : Server Func)
    (free : ∀ rpcId ∈ (services.flatMap Service.keys).map (rpcIdOf source),
      server.table transport rpcId = none) :
    ∃ last, server.regEach transport (generateRpcTable source) services = some last ∧
      (∀ rpcId ∉ (services.flatMap Service.keys).map (rpcIdOf source),
        last.table transport rpcId = server.table transport rpcId) ∧
      ∀ service ∈ services, ∀ func ∈ service.functions,
        last.table transport (rpcIdOf source (service.name ++ "." ++ func.name)) =
          some (service.bind func.svcFunc) := by
  induction services generalizing server with
  | nil => exact ⟨server, rfl, fun _ _ => rfl, nofun⟩
  | cons service services ih =>
    obtain ⟨member, part⟩ := cons_subset.mp part
    rw [flatMap_cons, map_append] at distinct free ⊢
    have apart := disjoint_of_nodup_append distinct
    have numberedEq := Service.numbered_of_nodup nodup member
    generalize functionsEq : service.functions.map _ = functions at numberedEq
    have numbers : functions.map Prod.fst = service.keys.map (rpcIdOf source) := by
      simp [← functionsEq, Service.keys]
    obtain ⟨next, regEq, unchanged, registered⟩ := Server.regTo_free
      (show server.Free transport (functions.map Prod.fst) from numbers ▸
        ⟨distinct.of_append_left, fun rpcId own => free rpcId (mem_append_left _ own)⟩)
    rw [numbers] at unchanged
    have same : ({ next with svcRegistered := true } : Server Func).table = next.table := by
      funext table
      cases table <;> rfl
    obtain ⟨last, lastEq, elsewhere, later⟩ := ih part distinct.of_append_right
      { next with svcRegistered := true } fun rpcId inside => by
        rw [same, unchanged.elsewhere rpcId fun own => apart own inside]
        exact free rpcId (mem_append_right _ inside)
    rw [same] at elsewhere
    refine ⟨last, ?_, fun rpcId outside => ?_, fun other inside func funcMember => ?_⟩
    · simp [regEach, numberedEq, regService, regEq, lastEq]
    · rw [mem_append, not_or] at outside
      rw [elsewhere rpcId outside.2, unchanged.elsewhere rpcId outside.1]
    · rcases mem_cons.mp inside with rfl | inside
      · have own := mem_map_of_mem (f := rpcIdOf source) (mem_map_of_mem (f := fun func =>
          other.name ++ "." ++ func.name) funcMember)
        rw [elsewhere _ fun late => apart own late]
        exact registered (_, _) (functionsEq ▸ mem_map_of_mem funcMember)
      · exact later other inside func funcMember

/-- Services of one file can be registered with one server in any order, and
each function is then found under its number. -/
theorem services_of_file_register (transport : Transport)
    (short : (source.flatMap Service.keys).length ≤ 2 ^ 32)
    (nodup : (source.flatMap Service.keys).Nodup) {services : List (Service Func)}
    (part : services ⊆ source) (once : (services.flatMap Service.keys).Nodup) (server : Server Func)
    (free : ∀ rpcId, server.table transport rpcId = none) :
    ∃ last, server.regEach transport (generateRpcTable source) services = some last ∧
      ∀ service ∈ services, ∀ func ∈ service.functions,
        last.table transport (rpcIdOf source (service.name ++ "." ++ func.name)) =
          some (service.bind func.svcFunc) := by
  have known {key} (inside : key ∈ services.flatMap Service.keys) :
      key ∈ source.flatMap Service.keys := by
    obtain ⟨service, member, own⟩ := mem_flatMap.mp inside
    exact mem_flatMap.mpr ⟨service, part member, own⟩
  obtain ⟨last, lastEq, -, registered⟩ := Server.regEach_registers nodup part
    (once.map_on fun _ inside _ other => rpcIdOf_injOn short (known inside) (known other))
    server fun rpcId _ => free rpcId
  exact ⟨last, lastEq, registered⟩

end Numbers

/-- A registration is atomic exactly if the numbers of the service are free in
the table it is registered in and, should a number stand twice in the service,
in both tables. -/
theorem service_registration_atomic_iff (source : List (Service Func))
    (service : Service Func) (member : service ∈ source) (server : Server Func)
    (transport : Transport) :
    ∃ functions, service.numbered (generateRpcTable source) = some functions ∧
      (server.Atomic transport functions (server.regTo transport functions).1
          (server.regTo transport functions).2 ↔
        (∀ rpcId ∈ functions.map Prod.fst, server.table transport rpcId = none) ∧
        ((functions.map Prod.fst).Nodup ∨
          ∀ rpcId ∈ functions.map Prod.fst, ∀ table, server.table table rpcId = none)) := by
  obtain ⟨functions, numberedEq⟩ := Service.numbered_generateRpcTable member
  exact ⟨functions, numberedEq, server.regTo_atomic_iff transport functions⟩

variable {rest : List RpcFunction}

theorem Service.first_number {source : List (Service Func)} {service : Service Func}
    {func : RpcFunction} (nodup : ((service :: source).flatMap Service.keys).Nodup)
    (functionsEq : service.functions = func :: rest) :
    ∃ functions, service.numbered (generateRpcTable (service :: source)) =
        some functions ∧ 0x10000001 ∈ functions.map Prod.fst := by
  refine ⟨_, Service.numbered_of_nodup nodup mem_cons_self, ?_⟩
  rw [functionsEq]
  simp [rpcIdOf, Service.keys, functionsEq]

/-- After a service that is the first of its file, the first of another file is
refused, and then nothing is registered under their common number. -/
theorem second_file_refused {source otherSource : List (Service Func)}
    {service otherService : Service Func} {func otherFunc : RpcFunction}
    {otherRest : List RpcFunction} (nodup : ((service :: source).flatMap Service.keys).Nodup)
    (otherNodup : ((otherService :: otherSource).flatMap Service.keys).Nodup)
    (functionsEq : service.functions = func :: rest)
    (otherFunctionsEq : otherService.functions = otherFunc :: otherRest) (server : Server Func)
    (transport : Transport) :
    ∃ functions otherFunctions, service.numbered (generateRpcTable (service :: source)) =
        some functions ∧
      otherService.numbered (generateRpcTable (otherService :: otherSource)) = some otherFunctions ∧
      ∀ next, server.regTo transport functions = (0, next) →
        ∃ last, next.regTo transport otherFunctions = (Server.eexist, last) ∧
          ∀ table, last.table table 0x10000001 = none := by
  obtain ⟨functions, numberedEq, number⟩ := Service.first_number nodup functionsEq
  obtain ⟨otherFunctions, otherNumberedEq, otherNumber⟩ :=
    Service.first_number otherNodup otherFunctionsEq
  refine ⟨functions, otherFunctions, numberedEq, otherNumberedEq, ?_⟩
  intro next regToEq
  have taken : next.table transport 0x10000001 ≠ none := by
    by_cases free : server.Free transport (functions.map Prod.fst)
    · obtain ⟨entered, enteredEq, -, registered⟩ := Server.regTo_free free
      cases enteredEq.symm.trans regToEq
      obtain ⟨entry, member, sameNumber⟩ := mem_map.mp number
      rw [← sameNumber, registered entry member]
      exact Option.some_ne_none _
    · obtain ⟨refused, refusedEq, -⟩ := Server.regTo_taken free
      cases refusedEq.symm.trans regToEq
  obtain ⟨last, lastEq, removed⟩ := Server.regTo_taken
    (fun free => taken (free.2 0x10000001 otherNumber))
  exact ⟨last, lastEq, fun table => by rw [removed, if_pos otherNumber]⟩

def counting : Service String :=
  ⟨"Counter", [⟨"add", false⟩, ⟨"sub", true⟩], fun func => "Counter::" ++ func⟩

def logging : Service String := ⟨"Logger", [⟨"log", false⟩], fun func => "Logger::" ++ func⟩

def empty : Server String := ⟨fun _ => none, fun _ => none, false⟩

theorem service_registration_atomic_counting :
    ∃ functions, counting.numbered (generateRpcTable [counting]) = some functions ∧
      (empty.Atomic .dpdk functions (empty.regTo .dpdk functions).1
          (empty.regTo .dpdk functions).2 ↔
        (∀ rpcId ∈ functions.map Prod.fst, empty.table .dpdk rpcId = none) ∧
        ((functions.map Prod.fst).Nodup ∨
          ∀ rpcId ∈ functions.map Prod.fst, ∀ table, empty.table table rpcId = none)) :=
  service_registration_atomic_iff [counting] counting (by simp) empty .dpdk

theorem services_of_file_register_swapped :
    ∃ last, empty.regEach .tcp (generateRpcTable [counting, logging]) [logging, counting] =
        some last ∧
      ∀ service ∈ [logging, counting], ∀ func ∈ service.functions,
        last.table .tcp (rpcIdOf [counting, logging] (service.name ++ "." ++ func.name)) =
          some (service.bind func.svcFunc) :=
  services_of_file_register .tcp (by decide) (by decide) (by simp) (by decide) empty fun _ => rfl

theorem second_file_refused_logging :
    ∃ functions otherFunctions, counting.numbered (generateRpcTable [counting]) = some functions ∧
      logging.numbered (generateRpcTable [logging]) = some otherFunctions ∧
      ∀ next, empty.regTo .tcp functions = (0, next) →
        ∃ last, next.regTo .tcp otherFunctions = (Server.eexist, last) ∧
          ∀ table, last.table table 0x10000001 = none :=
  second_file_refused (by decide) (by decide) rfl rfl empty .tcp

/-- The services of two files have got the same number, so the second is refused
and the first loses its function. -/
theorem second_file_unregisters_first :
    ((counting.numbered (generateRpcTable [counting])).bind fun first =>
      (logging.numbered (generateRpcTable [logging])).map fun second =>
        let registered := empty.regService .dpdk first
        let refused := registered.2.regService .dpdk second
        [(registered.1, registered.2.usHandlers 0x10000001, registered.2.usHandlers 0x10000002),
          (refused.1, refused.2.usHandlers 0x10000001, refused.2.usHandlers 0x10000002)]) =
      some
        [(0, some "Counter::__add__wrapper__", some "Counter::sub"),
          (17, none, some "Counter::sub")] := by
  decide +kernel

end SRPC.Registration
