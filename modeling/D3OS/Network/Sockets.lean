import D3OS.Lib.Keyed
import D3OS.Lib.Runs
import D3OS.Lib.Slab

/-!
# Sockets and their processes

`open_udp`, `open_tcp`, `open_icmp`, `close_socket`, `poll_sockets` and `close_sockets_for_process`
of `os/kernel/src/network/mod.rs`, for calls by any threads. A step of a call is what it does
between two acquisitions of the locks of `SOCKETS` and `SOCKET_PROCESS`; a call that waits for a
lock keeps those that it holds. A panic stops the kernel.

What `smoltcp` does with a socket is not modelled, except that its set hands out the lowest free
slot, that the removal of a free slot panics and that a TCP socket is or is not in the state
`CLOSED`.
-/

namespace D3OS.Network

open Lib

/-- `SocketType`, `network/mod.rs:38`. -/
inductive SocketType where
  | udp
  | tcp
  | icmp
  deriving DecidableEq, Repr

/-- What a socket of the set is. -/
inductive Kind where
  /-- A socket for a process. -/
  | user (type : SocketType)
  /-- `DNS_SOCKET`. -/
  | dns
  /-- `DHCP_SOCKET`. -/
  | dhcp
  deriving DecidableEq, Repr

/-- A socket, with the process and the call that opened it. `closed` is whether a TCP socket is in
the state `CLOSED`. -/
structure Socket where
  kind : Kind
  opener : Nat
  call : Option Nat
  closed : Bool
  deriving DecidableEq, Repr

/-- An entry of `SOCKET_PROCESS`: the process, and the kind of socket that was opened for it. -/
structure Entry where
  process : Nat
  kind : Kind
  deriving DecidableEq, Repr

/-- Where a call is. -/
inductive Pc where
  /-- The call was not made yet. -/
  | idle
  /-- `open_udp`, `open_tcp` or `open_icmp` before it adds the socket. -/
  | openStart (type : SocketType) (process : Nat)
  /-- The socket is in the set. -/
  | opened (type : SocketType) (process handle : Nat)
  /-- `close_socket` was called, by the owner of the handle or not. -/
  | closeStart (process handle : Nat) (owned : Bool)
  /-- It has locked `SOCKETS`. -/
  | closeLocked (process handle : Nat) (owned : Bool)
  /-- It has checked that the process owns the handle. -/
  | closeChecked (process handle : Nat)
  /-- `poll_sockets` was called; it will find that DHCP has configured the interface or not. -/
  | pollStart (configured : Bool)
  /-- It has locked `SOCKETS`. -/
  | pollLocked (configured : Bool)
  /-- `close_sockets_for_process` was called. -/
  | exitStart (process : Nat)
  /-- It has locked `SOCKET_PROCESS`. -/
  | exitLocked (process : Nat)
  /-- The call has returned. -/
  | done (handle : Option Nat)
  deriving DecidableEq, Repr

namespace Pc

/-- The call holds the lock of `SOCKETS`. -/
def HoldsSockets : Pc → Prop
  | closeLocked .. | closeChecked .. | pollLocked _ => True
  | _ => False

/-- The process and the handle of a call of `close_socket` by the owner. -/
def closes : Pc → Option (Nat × Nat)
  | closeStart process handle true | closeLocked process handle true
  | closeChecked process handle => some (process, handle)
  | _ => none

/-- An `open_udp` or `open_tcp` has added its socket and not recorded its process yet. -/
def unrecorded : Pc → Bool
  | opened .udp _ _ | opened .tcp _ _ => true
  | _ => false

end Pc

/-- The sockets, their processes, the calls so far with where each is, which calls hold the locks,
and the call that has panicked. `kernel` is the process that set up the network. -/
structure Stack where
  card : Bool
  kernel : Nat
  sockets : Slab Socket
  socketProcess : List (Nat × Entry)
  calls : Nat
  pc : Nat → Pc
  socketsLock : Option Nat
  mapLock : Option Nat
  panicked : Option Nat

/-- A call that a thread makes. -/
inductive Request where
  | open (type : SocketType) (process : Nat)
  | close (process handle : Nat)
  | poll (configured : Bool)
  | exit (process : Nat)
  deriving DecidableEq, Repr

/-- A thread makes a call, a call goes on, or the state of a TCP socket changes: by the calls that
use it, by a packet or by time. -/
inductive Event where
  | begin (request : Request)
  | step (call : Nat)
  | tcp (handle : Nat) (closed : Bool)
  deriving DecidableEq, Repr

/-- The handle of `DNS_SOCKET`, the first that is added. -/
def dnsHandle : Nat := 0

/-- The handle of `DHCP_SOCKET`. -/
def dhcpHandle : Nat := 1

namespace Stack

/-- After `init`, `network/mod.rs:42`, with or without a card. -/
def init (kernel : Nat) (card : Bool) : Stack where
  card := card
  kernel := kernel
  sockets :=
    if card then [some ⟨.dns, kernel, none, false⟩, some ⟨.dhcp, kernel, none, false⟩] else []
  socketProcess :=
    if card then [(dnsHandle, ⟨kernel, .dns⟩), (dhcpHandle, ⟨kernel, .dhcp⟩)] else []
  calls := 0
  pc := fun _ ↦ .idle
  socketsLock := none
  mapLock := none
  panicked := none

/-- The entry of a handle in `SOCKET_PROCESS`. -/
def entry (n : Stack) (handle : Nat) : Option Entry :=
  (n.socketProcess.find? fun e ↦ e.1 == handle).map (·.2)

/-- `SOCKET_PROCESS` without a handle. -/
def withoutEntry (handle : Nat) (map : List (Nat × Entry)) : List (Nat × Entry) :=
  map.filter fun e ↦ e.1 != handle

/-- A call goes on. -/
def goto (call : Nat) (pc : Pc) (n : Stack) : Stack :=
  { n with pc := Function.update n.pc call pc }

/-- A call panics. -/
def panic (call : Nat) (n : Stack) : Stack := { n with panicked := some call }

/-- The socket goes into the set. -/
def openAdd (call : Nat) (type : SocketType) (process : Nat) (n : Stack) : Stack :=
  if n.socketsLock.isSome then n
  else
    { n.goto call (.opened type process n.sockets.nextFree) with
      -- a new TCP socket is in the state `CLOSED`
      sockets := n.sockets.add ⟨.user type, process, some call, true⟩ }

/-- `try_insert` into `SOCKET_PROCESS`. -/
def openInsert (call : Nat) (type : SocketType) (process handle : Nat) (n : Stack) : Stack :=
  if n.mapLock.isSome then n
  else
    match n.entry handle with
    | some _ => n.panic call
    | none =>
      { n.goto call (.done (some handle)) with
        socketProcess := n.socketProcess ++ [(handle, ⟨process, .user type⟩)] }

/-- `close_socket` takes the lock of `SOCKETS`. -/
def closeLock (call process handle : Nat) (owned : Bool) (n : Stack) : Stack :=
  if n.socketsLock.isSome then n
  else { n.goto call (.closeLocked process handle owned) with socketsLock := some call }

/-- `check_ownership`, `network/mod.rs:105`. -/
def closeCheck (call process handle : Nat) (n : Stack) : Stack :=
  if n.mapLock.isSome then n
  else
    match n.entry handle with
    | none => n.panic call
    | some e =>
      if e.process ≠ process then n.panic call else n.goto call (.closeChecked process handle)

/-- `close_socket` removes the entry of the handle. The socket stays in the set. -/
def closeRemove (call handle : Nat) (n : Stack) : Stack :=
  if n.mapLock.isSome then n
  else
    match n.entry handle with
    | none => n.panic call
    | some _ =>
      { n.goto call (.done none) with
        socketProcess := withoutEntry handle n.socketProcess
        socketsLock := none }

/-- `try_write` of `SOCKETS` in `poll_sockets`. -/
def pollLock (call : Nat) (configured : Bool) (n : Stack) : Stack :=
  if n.socketsLock.isSome then n.goto call (.done none)
  else { n.goto call (.pollLocked configured) with socketsLock := some call }

/-- The socket of a handle is of a kind, as `get_mut` requires. -/
def hasKind (n : Stack) (handle : Nat) (kind : Kind) : Bool :=
  (n.sockets.get handle).any fun s ↦ s.kind == kind

/-- The sockets that `poll_sockets` removes: those that are closed and have no process. -/
def collects (n : Stack) (handle : Nat) (s : Socket) : Bool :=
  handle != dhcpHandle && handle != dnsHandle &&
    (match s.kind with
      | .user .tcp => s.closed
      | .user .udp => true
      | _ => false) && (n.entry handle).isNone

/-- `poll_sockets` with `SOCKETS` locked, `network/mod.rs:430`. -/
def pollCollect (call : Nat) (configured : Bool) (n : Stack) : Stack :=
  if n.hasKind dhcpHandle .dhcp = false then n.panic call
  else if configured = true ∧ n.hasKind dnsHandle .dns = false then n.panic call
  else if n.mapLock.isSome then n
  else
    { n.goto call (.done none) with
      sockets := (n.sockets.handles n.collects).foldl Slab.remove n.sockets
      socketsLock := none }

/-- `close_sockets_for_process` takes the lock of `SOCKET_PROCESS`. -/
def exitLock (call process : Nat) (n : Stack) : Stack :=
  if n.mapLock.isSome then n
  else { n.goto call (.exitLocked process) with mapLock := some call }

/-- The loop of `close_sockets_for_process`; `none` is a panic. -/
def closeAll : List Nat → Slab Socket → List (Nat × Entry) →
    Option (Slab Socket × List (Nat × Entry))
  | [], sockets, map => some (sockets, map)
  | handle :: handles, sockets, map =>
    match sockets.get handle with
    | none => none
    | some _ => closeAll handles (sockets.remove handle) (withoutEntry handle map)

/-- The handles of a process. -/
def handlesOf (process : Nat) (map : List (Nat × Entry)) : List Nat :=
  (map.filter fun e ↦ e.2.process == process).map (·.1)

/-- `close_sockets_for_process` with both locks, `network/mod.rs:527`. -/
def exitClose (call process : Nat) (n : Stack) : Stack :=
  if n.socketsLock.isSome then n
  else
    match closeAll (handlesOf process n.socketProcess) n.sockets n.socketProcess with
    | none => n.panic call
    | some (sockets, map) =>
      { n.goto call (.done none) with sockets := sockets, socketProcess := map, mapLock := none }

/-- The next step of a call. -/
def stepCall (call : Nat) (n : Stack) : Stack :=
  match n.pc call with
  | .idle => n
  | .openStart type process => n.openAdd call type process
  | .opened type process handle => n.openInsert call type process handle
  | .closeStart process handle owned => n.closeLock call process handle owned
  | .closeLocked process handle _ => n.closeCheck call process handle
  | .closeChecked _ handle => n.closeRemove call handle
  | .pollStart configured => n.pollLock call configured
  | .pollLocked configured => n.pollCollect call configured
  | .exitStart process => n.exitLock call process
  | .exitLocked process => n.exitClose call process
  | .done _ => n

/-- Where a call begins. Only a kernel with a card polls. -/
def start (n : Stack) : Request → Pc
  | .open type process => .openStart type process
  | .close process handle =>
    .closeStart process handle ((n.entry handle).any fun e ↦ e.process == process)
  | .poll configured => if n.card then .pollStart configured else .done none
  | .exit process => .exitStart process

/-- An event. -/
def step (n : Stack) (event : Event) : Stack :=
  if n.panicked.isSome then n
  else
    match event with
    | .begin request => { n.goto n.calls (n.start request) with calls := n.calls + 1 }
    | .step call => n.stepCall call
    | .tcp handle closed =>
      { n with sockets := n.sockets.modify handle fun s ↦ { s with closed := closed } }

/-- A run. -/
def run (n : Stack) (events : List Event) : Stack := events.foldl step n

end Stack

end D3OS.Network
