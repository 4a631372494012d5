import OciTransfer.CopyHandler
import OciTransfer.KeyedTable
import OciTransfer.TransitionRules

/-!
The table of the running operations.

The handler of a copy request makes a context of its own, registers the context's `cancel`
under the id of the request, and defers taking it out again; a handler that is refused defers
only the call of its own `cancel`.  A cancel request looks a `cancel` up and calls it after
it has given the lock back, so other handlers may come and go in between, under the same id
too.  A locked section is one step, and handlers and requests go on in any order.
-/

namespace OciTransfer

open Guards

/-! ### The locked section of a copy request -/

namespace Service

private theorem lockedCheck_ok {service : Service} {id : String}
    (passed : service.lockedCheck id = .ok ()) :
    service.operations.length < service.maximum ∧ id ∉ service.operations := by
  unfold lockedCheck at passed
  obtain ⟨notFull, passed⟩ := ok_of_guard passed
  obtain ⟨fresh, -⟩ := ok_of_guard passed
  exact ⟨not_le.mp notFull, fresh⟩

end Service

/-! ### Handlers and cancel requests -/

inductive HandlerPoint where
  | waiting
  | rejected (response : Response)
  | running
  | removed
  | returned
  deriving DecidableEq, Repr

/-- Only the deferred call of the handler's own `cancel` is left. -/
def HandlerPoint.leaving : HandlerPoint → Bool
  | .rejected _ | .removed => true
  | .waiting | .running | .returned => false

/-- A handler, and whether the context it has made is cancelled. -/
structure RequestHandler where
  id : String
  point : HandlerPoint
  cancelled : Bool
  deriving DecidableEq, Repr

namespace RequestHandler

def arriveAt (handler : RequestHandler) (point : HandlerPoint) : RequestHandler :=
  { handler with point := point }

def cancel (handler : RequestHandler) : RequestHandler :=
  { handler with cancelled := true }

def runningId (handler : RequestHandler) : Option String :=
  if handler.point = .running then some handler.id else none

end RequestHandler

/-- An entry of `operations`: the handler whose `cancel` is stored. -/
structure OperationEntry where
  id : String
  handler : Nat
  deriving DecidableEq, Repr

/-- Where a cancel request has arrived; a `cancel` it has found belongs to a handler. -/
inductive CancelPoint where
  | waiting
  | looked (found : Option Nat)
  | answered (status : Nat)
  deriving DecidableEq, Repr

structure CancelRequest where
  id : String
  point : CancelPoint
  deriving DecidableEq, Repr

/-- The handlers and the cancel requests are known by their number. -/
structure OperationServer where
  handlers : List RequestHandler
  cancels : List CancelRequest
  operations : KeyedTable OperationEntry.id

inductive ServerMove where
  | copy (id : String) (decoded : Option CopyRequest)
  | register (number : Nat)
  | remove (number : Nat)
  | finish (number : Nat)
  | disconnect (number : Nat)
  | cancel (id : String)
  | lookup (number : Nat)
  | call (number : Nat)
  deriving DecidableEq, Repr

namespace OperationServer

def initial : OperationServer :=
  { handlers := []
    cancels := []
    operations := KeyedTable.empty }

variable (server : OperationServer)

def registered (id : String) : Option Nat :=
  (server.operations.find? id).map OperationEntry.handler

def running (number : Nat) : Option String :=
  server.handlers[number]?.bind RequestHandler.runningId

def put (number : Nat) (handler : RequestHandler) : OperationServer :=
  { server with handlers := server.handlers.set number handler }

def locked (service : Service) : Service :=
  { service with operations := server.operations.rows.map OperationEntry.id }

/-- A request that has been checked waits for the lock; the context is made before. -/
def copy (id : String) (decoded : Option CopyRequest) : OperationServer :=
  let point : HandlerPoint :=
    match Service.check id decoded with
    | .error _ => .returned
    | .ok _ => .waiting
  { server with
    handlers := server.handlers ++ [{ id := id, point := point, cancelled := false }] }

def register (service : Service) (number : Nat) (handler : RequestHandler) : OperationServer :=
  match (server.locked service).lockedCheck handler.id with
  | .error response => server.put number (handler.arriveAt (.rejected response))
  | .ok () =>
      { server.put number (handler.arriveAt .running) with
        operations := server.operations.set { id := handler.id, handler := number } }

def remove (number : Nat) (handler : RequestHandler) : OperationServer :=
  { server.put number (handler.arriveAt .removed) with
    operations := server.operations.delete fun entry => entry.id = handler.id }

/-- `cancel()`, if one has been found, and the answer. -/
def call (number : Nat) (request : CancelRequest) (found : Option Nat) : OperationServer :=
  { server with
    handlers := found.elim server.handlers fun handler =>
      server.handlers.modify handler RequestHandler.cancel
    cancels := server.cancels.set number
      { request with point := .answered (if found.isSome then 202 else 404) } }

/-- One step of a handler, of a cancel request, or of the HTTP server, which cancels the
context of a client that is gone.  A body may end at any time. -/
def next (service : Service) : ServerMove → Option OperationServer
  | .copy id decoded => some (server.copy id decoded)
  | .register number =>
      (server.handlers[number]?.filter fun handler => handler.point = .waiting).map
        (server.register service number)
  | .remove number =>
      (server.handlers[number]?.filter fun handler => handler.point = .running).map
        (server.remove number)
  | .finish number =>
      (server.handlers[number]?.filter fun handler => handler.point.leaving).map fun handler =>
        server.put number (handler.arriveAt .returned).cancel
  | .disconnect number =>
      server.handlers[number]?.map fun handler => server.put number handler.cancel
  | .cancel id =>
      some { server with cancels := server.cancels ++ [{ id := id, point := .waiting }] }
  | .lookup number =>
      (server.cancels[number]?.filter fun request => request.point = .waiting).map fun request =>
        { server with
          cancels := server.cancels.set number
            { request with point := .looked (server.registered request.id) } }
  | .call number =>
      server.cancels[number]?.bind fun request =>
        match request.point with
        | .looked found => some (server.call number request found)
        | .waiting | .answered _ => none

end OperationServer

private theorem exists_of_map_filter {α β : Type} {found : Option α} {test : α → Bool}
    {change : α → β}
    {result : β} (changed : (found.filter test).map change = some result) :
    ∃ value, found = some value ∧ test value = true ∧ change value = result := by
  obtain ⟨value, present, same⟩ := Option.map_eq_some_iff.mp changed
  obtain ⟨there, passed⟩ := Option.filter_eq_some_iff.mp present
  exact ⟨value, there, passed, same⟩

def operationServer (service : Service) : Machine OperationServer ServerMove :=
  { start := fun server => server = OperationServer.initial
    next := fun server move => server.next service move }

/-! ### What a step does to the table -/

namespace OperationServer

variable {service : Service} {before after server : OperationServer} {handler : RequestHandler}
  {number : Nat}

private theorem running_of_found (found : server.handlers[number]? = some handler) :
    server.running number = handler.runningId := by
  unfold running
  rw [found]
  rfl

private theorem running_put (found : server.handlers[number]? = some handler)
    (now : RequestHandler) :
    (server.put number now).running = Function.update server.running number now.runningId := by
  have within : number < server.handlers.length := (List.getElem?_eq_some_iff.mp found).1
  funext other
  unfold running put
  rw [List.getElem?_set]
  by_cases same : number = other
  · rw [if_pos same, if_pos within, ← same, Function.update_self]
    rfl
  · rw [if_neg same, Function.update_of_ne (Ne.symm same)]

private theorem running_put_same (found : server.handlers[number]? = some handler)
    {now : RequestHandler}
    (same : now.runningId = handler.runningId) :
    (server.put number now).running = server.running := by
  rw [running_put found, same, ← running_of_found found, Function.update_eq_self]

private theorem running_copy (id : String) (decoded : Option CopyRequest) :
    (server.copy id decoded).running = server.running := by
  funext other
  unfold running copy
  dsimp only
  rw [List.getElem?_append]
  split
  · rfl
  · rename_i beyond
    rw [List.getElem?_eq_none (not_lt.mp beyond)]
    cases other - server.handlers.length with
    | zero =>
        cases Service.check id decoded with
        | error response => rfl
        | ok request => rfl
    | succ later => rfl

private theorem running_call (number : Nat) (request : CancelRequest) (found : Option Nat) :
    (server.call number request found).running = server.running := by
  cases found with
  | none => rfl
  | some target =>
      funext other
      unfold running call
      dsimp only
      rw [Option.elim_some, List.getElem?_modify]
      cases server.handlers[other]? with
      | none => rfl
      | some handler =>
          rw [Option.map_eq_map, Option.map_some]
          by_cases same : target = other
          · rw [if_pos same]
            rfl
          · rw [if_neg same]

private theorem registered_eq_none {id : String}
    (absent : id ∉ server.operations.rows.map OperationEntry.id) :
    server.operations.find? id = none := by
  apply server.operations.find?_eq_none.mpr
  intro entry member same
  exact absent (List.mem_map.mpr ⟨entry, member, same⟩)

/-- What a step does to the table and to the handlers that have to be in it. -/
inductive Effect (service : Service) (before after : OperationServer) : Prop where
  | same (running : after.running = before.running)
      (operations : after.operations = before.operations)
  | entered (id : String) (number : Nat)
      (room : before.operations.rows.length < service.maximum)
      (free : before.operations.find? id = none) (idle : before.running number = none)
      (running : after.running = Function.update before.running number (some id))
      (operations : after.operations = before.operations.set { id := id, handler := number })
  | left (id : String) (number : Nat) (held : before.running number = some id)
      (running : after.running = Function.update before.running number none)
      (operations : after.operations = before.operations.delete fun entry => entry.id = id)

private theorem effect_register (found : server.handlers[number]? = some handler)
    (waiting : handler.point = .waiting) :
    Effect service server (server.register service number handler) := by
  have idle : handler.runningId = none := by
    unfold RequestHandler.runningId
    rw [waiting]
    rfl
  unfold register
  cases decision : (server.locked service).lockedCheck handler.id with
  | error response => exact .same (running_put_same found idle.symm) rfl
  | ok accepted =>
      obtain ⟨room, fresh⟩ := Service.lockedCheck_ok decision
      refine .entered handler.id number ?_ (registered_eq_none fresh) ?_
        (running_put found (handler.arriveAt .running)) rfl
      · rw [← List.length_map OperationEntry.id]
        exact room
      · rw [running_of_found found]
        exact idle

private theorem effect {move : ServerMove} (moved : before.next service move = some after) :
    Effect service before after := by
  cases move with
  | copy id decoded =>
      cases moved
      exact .same (running_copy id decoded) rfl
  | register number =>
      obtain ⟨handler, found, waiting, rfl⟩ := exists_of_map_filter moved
      exact effect_register found (of_decide_eq_true waiting)
  | remove number =>
      obtain ⟨handler, found, runs, rfl⟩ := exists_of_map_filter moved
      have isRunning : handler.point = .running := of_decide_eq_true runs
      refine .left handler.id number ?_ (running_put found (handler.arriveAt .removed)) rfl
      rw [running_of_found found]
      exact if_pos isRunning
  | finish number =>
      obtain ⟨handler, found, leaves, rfl⟩ := exists_of_map_filter moved
      have notRunning : handler.point ≠ .running := by
        intro runs
        rw [runs] at leaves
        cases leaves
      exact .same (running_put_same found (if_neg notRunning).symm) rfl
  | disconnect number =>
      obtain ⟨handler, found, rfl⟩ := Option.map_eq_some_iff.mp moved
      exact .same (running_put_same found rfl) rfl
  | cancel id =>
      cases moved
      exact .same rfl rfl
  | lookup number =>
      obtain ⟨request, present, rfl⟩ := Option.map_eq_some_iff.mp moved
      exact .same rfl rfl
  | call number =>
      obtain ⟨request, present, called⟩ := Option.bind_eq_some_iff.mp moved
      cases arrived : request.point with
      | looked found =>
          rw [arrived] at called
          cases called
          exact .same (running_call number request found) rfl
      | waiting =>
          rw [arrived] at called
          cases called
      | answered status =>
          rw [arrived] at called
          cases called

/-- The table names exactly the running handlers, and is not too long. -/
structure Exact (service : Service) (server : OperationServer) : Prop where
  names : server.operations.Names OperationEntry.handler server.running
  bounded : server.operations.rows.length ≤ service.maximum

private theorem exact_initial (service : Service) : initial.Exact service where
  names := by
    intro id number
    exact iff_of_false (fun impossible => by cases impossible)
      (fun impossible => by cases impossible)
  bounded := Nat.zero_le _

theorem Exact.step (isExact : before.Exact service) {move : ServerMove}
    (moved : before.next service move = some after) : after.Exact service := by
  rcases effect moved with ⟨running, operations⟩ |
    ⟨id, number, room, free, idle, running, operations⟩ | ⟨id, number, held, running, operations⟩
  · constructor
    · rw [running, operations]
      exact isExact.names
    · rw [operations]
      exact isExact.bounded
  · constructor
    · rw [running, operations]
      exact isExact.names.set free idle
    · rw [operations]
      exact (before.operations.length_set_le _).trans room
  · constructor
    · rw [running, operations]
      exact isExact.names.delete held
    · rw [operations]
      exact (List.length_filter_le _ _).trans isExact.bounded

private theorem Exact.of_reachable (reached : (operationServer service).Reachable server) :
    server.Exact service := by
  apply reached.invariant (Exact service)
  · intro first started
    rw [started]
    exact exact_initial service
  · intro before move after moved isExact
    exact isExact.step moved

private theorem running_iff {id : String} : server.running number = some id ↔
    ∃ handler, server.handlers[number]? = some handler ∧ handler.id = id ∧
      handler.point = .running := by
  unfold running
  rw [Option.bind_eq_some_iff]
  constructor
  · intro runs
    obtain ⟨handler, found, named⟩ := runs
    unfold RequestHandler.runningId at named
    by_cases isRunning : handler.point = .running
    · rw [if_pos isRunning] at named
      exact ⟨handler, found, Option.some.inj named, isRunning⟩
    · rw [if_neg isRunning] at named
      cases named
  · intro runs
    obtain ⟨handler, found, named, isRunning⟩ := runs
    refine ⟨handler, found, ?_⟩
    rw [← named]
    exact if_pos isRunning

/-! ### Handlers that are refused -/

structure SameBut (before after : OperationServer) (number : Nat) : Prop where
  operations : after.operations = before.operations
  cancels : after.cancels = before.cancels
  handlers : ∀ other, other ≠ number → after.handlers[other]? = before.handlers[other]?

private theorem sameBut_put (server : OperationServer) (number : Nat) (now : RequestHandler) :
    server.SameBut (server.put number now) number where
  operations := rfl
  cancels := rfl
  handlers := by
    intro other differs
    exact List.getElem?_set_ne (Ne.symm differs)

def Rejected (server : OperationServer) (number : Nat) : Prop :=
  ∃ handler response, server.handlers[number]? = some handler ∧
    handler.point = .rejected response

private theorem Rejected.point_eq (rejected : server.Rejected number)
    (found : server.handlers[number]? = some handler) :
    ∃ response, handler.point = .rejected response := by
  obtain ⟨other, response, present, isRejected⟩ := rejected
  rw [found] at present
  cases present
  exact ⟨response, isRejected⟩

private theorem handlers_put_self (found : server.handlers[number]? = some handler)
    (now : RequestHandler) :
    (server.put number now).handlers[number]? = some now :=
  List.getElem?_set_self (List.getElem?_eq_some_iff.mp found).1

end OperationServer

def ServerMove.handler? : ServerMove → Option Nat
  | .register number | .remove number | .finish number | .disconnect number => some number
  | .copy _ _ | .cancel _ | .lookup _ | .call _ => none

namespace OperationServer

variable {service : Service} {before after server : OperationServer} {handler : RequestHandler}
  {number : Nat}

private theorem sameBut_of_rejected {move : ServerMove}
    (moved : before.next service move = some after)
    (its : move.handler? = some number)
    (rejected : before.Rejected number ∨ after.Rejected number) :
    before.SameBut after number := by
  cases move with
  | copy _ _ | cancel _ | lookup _ | call _ => cases its
  | register own =>
      cases its
      obtain ⟨handler, found, waiting, rfl⟩ := exists_of_map_filter moved
      unfold register at rejected ⊢
      cases decision : (before.locked service).lockedCheck handler.id with
      | error response => exact before.sameBut_put number (handler.arriveAt (.rejected response))
      | ok accepted =>
          rw [decision] at rejected
          rcases rejected with already | now
          · obtain ⟨response, isRejected⟩ := already.point_eq found
            have isWaiting := of_decide_eq_true waiting
            rw [isRejected] at isWaiting
            cases isWaiting
          · obtain ⟨response, isRejected⟩ :=
              now.point_eq (handlers_put_self found (handler.arriveAt .running))
            cases isRejected
  | remove own =>
      cases its
      obtain ⟨handler, found, runs, rfl⟩ := exists_of_map_filter moved
      rcases rejected with already | now
      · obtain ⟨response, isRejected⟩ := already.point_eq found
        have isRunning := of_decide_eq_true runs
        rw [isRejected] at isRunning
        cases isRunning
      · obtain ⟨response, isRejected⟩ :=
          now.point_eq (handlers_put_self found (handler.arriveAt .removed))
        cases isRejected
  | finish own =>
      cases its
      obtain ⟨handler, present, rfl⟩ := Option.map_eq_some_iff.mp moved
      exact before.sameBut_put number _
  | disconnect own =>
      cases its
      obtain ⟨handler, found, rfl⟩ := Option.map_eq_some_iff.mp moved
      exact before.sameBut_put number _

/-! ### Cancel requests -/

/-- The request has looked up what it has to call, and may have called it. -/
def HasLooked (server : OperationServer) (number : Nat) (id : String) (found : Option Nat) : Prop :=
  server.cancels[number]? = some { id := id, point := .looked found } ∨
    ∃ status, server.cancels[number]? = some { id := id, point := .answered status }

theorem HasLooked.of_eq {id : String} {found : Option Nat}
    (looked : before.HasLooked number id found)
    (same : after.cancels[number]? = before.cancels[number]?) :
    after.HasLooked number id found := by
  unfold HasLooked
  rw [same]
  exact looked

private theorem cancels_register (server : OperationServer) (service : Service) (number : Nat)
    (handler : RequestHandler) :
    (server.register service number handler).cancels = server.cancels := by
  unfold register
  cases (server.locked service).lockedCheck handler.id with
  | error response => rfl
  | ok accepted => rfl

theorem HasLooked.call {id : String} {found target : Option Nat} {own : Nat}
    {request : CancelRequest} (looked : before.HasLooked number id found)
    (there : before.cancels[own]? = some request) :
    (before.call own request target).HasLooked number id found := by
  by_cases same : own = number
  · subst same
    have listed : (before.call own request target).cancels[own]? = some
        { request with point := .answered (if target.isSome then 202 else 404) } :=
      List.getElem?_set_self (List.getElem?_eq_some_iff.mp there).1
    right
    refine ⟨if target.isSome then 202 else 404, ?_⟩
    rcases looked with present | ⟨status, present⟩
    · rw [there] at present
      rw [listed, Option.some.inj present]
    · rw [there] at present
      rw [listed, Option.some.inj present]
  · exact looked.of_eq (List.getElem?_set_ne same)

theorem HasLooked.step {id : String} {found : Option Nat} {move : ServerMove}
    (looked : before.HasLooked number id found) (moved : before.next service move = some after) :
    after.HasLooked number id found := by
  cases move with
  | copy _ _ =>
      cases moved
      exact looked.of_eq rfl
  | register own =>
      obtain ⟨handler, -, rfl⟩ := Option.map_eq_some_iff.mp moved
      apply looked.of_eq
      rw [cancels_register]
  | remove own | finish own | disconnect own =>
      obtain ⟨handler, -, rfl⟩ := Option.map_eq_some_iff.mp moved
      exact looked.of_eq rfl
  | cancel asked =>
      cases moved
      apply looked.of_eq
      have within : number < before.cancels.length := by
        rcases looked with present | ⟨status, present⟩
        · exact (List.getElem?_eq_some_iff.mp present).1
        · exact (List.getElem?_eq_some_iff.mp present).1
      exact List.getElem?_append_left within
  | lookup own =>
      obtain ⟨request, there, waiting, rfl⟩ := exists_of_map_filter moved
      have isWaiting : request.point = .waiting := of_decide_eq_true waiting
      apply looked.of_eq
      apply List.getElem?_set_ne
      intro same
      rw [same] at there
      rcases looked with listed | ⟨status, listed⟩
      · rw [there] at listed
        cases listed
        cases isWaiting
      · rw [there] at listed
        cases listed
        cases isWaiting
  | call own =>
      obtain ⟨request, there, called⟩ := Option.bind_eq_some_iff.mp moved
      cases point : request.point with
      | waiting | answered _ =>
          rw [point] at called
          cases called
      | looked target =>
          rw [point] at called
          cases called
          exact looked.call there

/-- A cancel request from its look at the table to its call, with anything in between. -/
structure Cancels (service : Service) (server looked last final : OperationServer)
    (number : Nat) : Prop where
  looks : server.next service (.lookup number) = some looked
  meanwhile : (operationServer service).Run Machine.Always looked last
  calls : last.next service (.call number) = some final

/-- What is called is what was found, whoever is registered by then. -/
theorem Cancels.call_eq {server looked last final : OperationServer}
    (cancels : Cancels service server looked last final number) :
    ∃ request, server.cancels[number]? = some request ∧
      ∃ answering, final = last.call number answering (server.registered request.id) := by
  obtain ⟨request, there, -, rfl⟩ := exists_of_map_filter cancels.looks
  refine ⟨request, there, ?_⟩
  have atFirst : HasLooked { server with
      cancels := server.cancels.set number
        { request with point := .looked (server.registered request.id) } }
      number request.id (server.registered request.id) :=
    Or.inl (List.getElem?_set_self (List.getElem?_eq_some_iff.mp there).1)
  have atLast := cancels.meanwhile.preserves
    (fun state => state.HasLooked number request.id (server.registered request.id))
    (fun before move after _ moved looked => looked.step moved) atFirst
  obtain ⟨answering, listed, called⟩ := Option.bind_eq_some_iff.mp cancels.calls
  rcases atLast with present | ⟨status, present⟩
  · rw [listed] at present
    cases present
    cases called
    exact ⟨_, rfl⟩
  · rw [listed] at present
    cases present
    cases called

private theorem handlers_call (server : OperationServer) (number : Nat) (request : CancelRequest)
    (found : Option Nat) (other : Nat) :
    (server.call number request found).handlers[other]? =
      if found = some other then server.handlers[other]?.map RequestHandler.cancel
      else server.handlers[other]? := by
  cases found with
  | none => rfl
  | some target =>
      unfold call
      dsimp only
      rw [Option.elim_some, List.getElem?_modify, Option.map_eq_map]
      simp only [Option.some.injEq]
      by_cases same : target = other
      · simp only [if_pos same]
      · simp only [if_neg same]
        exact Option.map_id'

/-! ### The table in every reachable state -/

/-- What the table of a server is at any time. -/
structure TableExact (service : Service) (server : OperationServer) : Prop where
  bounded : server.operations.rows.length ≤ service.maximum
  entries : ∀ id number, server.registered id = some number ↔
    ∃ handler, server.handlers[number]? = some handler ∧ handler.id = id ∧
      handler.point = .running
  rejected : ∀ move number after, server.next service move = some after →
    move.handler? = some number → server.Rejected number ∨ after.Rejected number →
    server.SameBut after number
  cancels : ∀ number looked last final, Cancels service server looked last final number →
    ∃ request, server.cancels[number]? = some request ∧
      looked.handlers = server.handlers ∧ looked.operations = server.operations ∧
      final.operations = last.operations ∧
      ∀ other, final.handlers[other]? =
        if server.registered request.id = some other then
          last.handlers[other]?.map RequestHandler.cancel
        else last.handlers[other]?
  drained : (∀ handler ∈ server.handlers, handler.point = .returned) → server.operations.rows = []

private theorem Exact.drained (isExact : server.Exact service)
    (returned : ∀ handler ∈ server.handlers, handler.point = .returned) :
    server.operations.rows = [] := by
  apply List.eq_nil_iff_forall_not_mem.mpr
  intro entry member
  have found := server.operations.find?_of_mem member
  have named : (server.operations.find? entry.id).map OperationEntry.handler =
      some entry.handler := by
    rw [found]
    rfl
  obtain ⟨handler, present, -, isRunning⟩ :=
    running_iff.mp ((isExact.names entry.id entry.handler).mp named)
  rw [returned handler (List.mem_of_getElem? present)] at isRunning
  cases isRunning

end OperationServer

/-- Whatever order the copy requests, the cancel requests and the handlers go on in. -/
theorem operation_table_exact {service : Service} {server : OperationServer}
    (reached : (operationServer service).Reachable server) : server.TableExact service := by
  have isExact := OperationServer.Exact.of_reachable reached
  constructor
  · exact isExact.bounded
  · intro id number
    rw [← OperationServer.running_iff]
    exact isExact.names id number
  · intro move number after moved its rejected
    exact OperationServer.sameBut_of_rejected moved its rejected
  · intro number looked last final cancels
    obtain ⟨request, there, answering, rfl⟩ := cancels.call_eq
    obtain ⟨other, -, rfl⟩ := Option.map_eq_some_iff.mp cancels.looks
    exact ⟨request, there, rfl, rfl, rfl, last.handlers_call number answering _⟩
  · exact isExact.drained

/-- The first handler is gone when the `cancel` found for it is called, and another one has
its id; the second came while the first was there. -/
theorem operation_table_exact_sample : ∃ server : OperationServer,
    (operationServer { sampleService with maximum := 2 }).Reachable server ∧
      server.TableExact { sampleService with maximum := 2 } ∧
      server.registered "job" = some 2 ∧ server.handlers.map (fun handler =>
        (handler.point, handler.cancelled)) = [(.returned, true), (.returned, true),
          (.running, false)] := by
  have started : (operationServer { sampleService with maximum := 2 }).start
      OperationServer.initial := rfl
  have run : (((operationServer { sampleService with maximum := 2 }).execute Machine.Always
      [.copy "job" (some sampleRequest), .copy "job" (some sampleRequest), .register 0, .register 1,
        .cancel "job", .lookup 0, .remove 0, .finish 0, .copy "job" (some sampleRequest),
        .register 2, .finish 1, .call 0] OperationServer.initial).any fun server =>
      decide (server.registered "job" = some 2 ∧ server.handlers.map (fun handler =>
        (handler.point, handler.cancelled)) = [(.returned, true), (.returned, true),
          (.running, false)])) = true := by decide
  obtain ⟨server, reached, held⟩ := Machine.exists_reachable_of_execute _ started run
  exact ⟨server, reached, operation_table_exact reached, of_decide_eq_true held⟩

end OciTransfer
