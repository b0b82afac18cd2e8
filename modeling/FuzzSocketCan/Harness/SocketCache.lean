import FuzzSocketCan.Lib.Execution
import Mathlib.Data.Int.Notation
import Mathlib.Data.Nat.Notation

/-! # The socket cache

`socket_cache.c` remembers which sockets carry fuzzed data. An entry of `connections` stands for
the target port or the CAN interface; it has the server sockets, from which the target reads, and
the client sockets, which the harness has connected to them. All counters have 8 bits.

The table has 16 entries, and nothing keeps the index below 16. The model stays defined when the
table is left, with further entries; the memory behind the table, where `active_con_num` lies, is
not modelled. What is proved of the entries is therefore proved for runs that stay inside.
-/

namespace FuzzSocketCan

/-- `interfaces_t` -/
structure Interfaces where
  serverSockets : ℕ → ℤ
  serverSocketsNum : UInt8
  clientSockets : ℕ → ℤ
  clientSocketsNum : UInt8
  port : UInt16
  isCan : Bool
  disabled : Bool

namespace Interfaces

variable (connection : Interfaces) (socket : ℤ)

def unused : Interfaces := ⟨fun _ => 0, 0, fun _ => 0, 0, 0, false, false⟩

def checkServerSocket : Bool :=
  (List.range connection.serverSocketsNum.toNat).any fun i => connection.serverSockets i == socket

/-- `none` where the assertion fails. -/
def addServerSocket : Option Interfaces :=
  if connection.checkServerSocket socket then some connection
  else if connection.serverSocketsNum < 8 then
    some { connection with
      serverSockets :=
        Function.update connection.serverSockets connection.serverSocketsNum.toNat socket
      serverSocketsNum := connection.serverSocketsNum + 1 }
  else none

/-- `none` where the assertion fails. It looks among the server sockets. -/
def addClientSocket : Option Interfaces :=
  if connection.checkServerSocket socket then some connection
  else if connection.serverSocketsNum < 8 then
    some { connection with
      clientSockets :=
        Function.update connection.clientSockets connection.clientSocketsNum.toNat socket
      clientSocketsNum := connection.clientSocketsNum + 1 }
  else none

/-- The loop of `close_server_socket`. -/
def closeLoop (sockets : ℕ → ℤ) (n : ℕ) : (ℕ → ℤ) × Bool :=
  (List.range n).foldl
    (fun (sockets, closed) i =>
      let sockets := if closed then Function.update sockets (i - 1) (sockets i) else sockets
      (sockets, closed || sockets i == socket))
    (sockets, false)

/-- Both counters are decremented. -/
def closeServerSocket : Interfaces × Bool :=
  if connection.checkServerSocket socket then
    let (sockets, closed) :=
      closeLoop socket connection.serverSockets connection.serverSocketsNum.toNat
    if closed then
      ({ connection with
        serverSockets := sockets
        serverSocketsNum := connection.serverSocketsNum - 1
        clientSocketsNum := connection.clientSocketsNum - 1 }, true)
    else ({ connection with serverSockets := sockets }, false)
  else (connection, false)

end Interfaces

/-- The variables of `socket_cache.c`, and whether `RELEASE` has ended the run. Of `connections`,
only the entries below 16 are those of the source. -/
structure SocketCache where
  activeConnections : UInt8
  connections : ℕ → Interfaces
  activeConNum : UInt8
  released : Bool

namespace SocketCache

variable (self : SocketCache)

def start : SocketCache := ⟨0, fun _ => .unused, 0, false⟩

def find? (p : Interfaces → Bool) : Option ℕ :=
  (List.range self.activeConnections.toNat).find? fun i =>
    !(self.connections i).disabled && p (self.connections i)

def connectionExists (port : UInt16) : Bool := (self.find? (·.port == port)).isSome

def connectionExistsCan : Bool := (self.find? (·.isCan)).isSome

def serverSocketExists (socket : ℤ) : Bool := (self.find? (·.checkServerSocket socket)).isSome

/-- `none` for -1. -/
def serverSocketToPort (socket : ℤ) : Option UInt16 :=
  (self.find? (·.checkServerSocket socket)).map fun i => (self.connections i).port

def setConnection (p : Interfaces → Bool) (f : Interfaces → Option Interfaces) :
    Option (SocketCache × Bool) :=
  match self.find? p with
  | some i => (f (self.connections i)).map fun c =>
    ({ self with connections := Function.update self.connections i c }, true)
  | none => some (self, false)

def setServerSocketToConnection (port : UInt16) (socket : ℤ) : Option (SocketCache × Bool) :=
  self.setConnection (·.port == port) (·.addServerSocket socket)

def setServerSocketToConnectionCan (socket : ℤ) : Option (SocketCache × Bool) :=
  self.setConnection (·.isCan) (·.addServerSocket socket)

def setClientSocketToConnection (port : UInt16) (socket : ℤ) : Option (SocketCache × Bool) :=
  self.setConnection (·.port == port) (·.addClientSocket socket)

def maxConnections : UInt8 := 16

/-- The next entry is initialised. -/
def openConnection (init : Interfaces → Interfaces) : SocketCache :=
  if maxConnections ≤ self.activeConNum then { self with released := true }
  else
    let i := self.activeConnections.toNat
    { self with
      connections := Function.update self.connections i
        { init (self.connections i) with clientSocketsNum := 0, serverSocketsNum := 0 }
      activeConnections := self.activeConnections + 1
      activeConNum := self.activeConNum + 1 }

/-- `none` where the assertion fails. -/
def addConnection (port : UInt16) : Option SocketCache :=
  if self.connectionExists port then none else some (self.openConnection ({ · with port := port }))

/-- `none` where the assertion fails. -/
def addConnectionCan : Option SocketCache :=
  if self.connectionExistsCan then none else some (self.openConnection ({ · with isCan := true }))

/-- The loop of `disable_connection_by_server_socket`, which ends with the first connection that has
no server socket left. -/
def disableLoop (socket : ℤ) : List ℕ → SocketCache → SocketCache
  | [], self => self
  | i :: is, self =>
    if (self.connections i).disabled then disableLoop socket is self
    else
      let (c, closed) := (self.connections i).closeServerSocket socket
      if closed && c.serverSocketsNum == 0 then
        { self with
          activeConNum := self.activeConNum - 1
          connections := Function.update self.connections i { c with disabled := true } }
      else disableLoop socket is { self with connections := Function.update self.connections i c }

def disableConnectionByServerSocket (socket : ℤ) : SocketCache :=
  disableLoop socket (List.range self.activeConnections.toNat) self

end SocketCache

/-! ## The intercepted calls -/

/-- The calls, with what the kernel answers: the port, the socket that the harness connects (nothing
if it exits), the descriptor that is returned. -/
inductive SocketCall
  | listen (port : Option UInt16) (client : Option ℤ)
  | accept (ret : ℤ) (port : Option UInt16)
  | bind (sockfd ret : ℤ) (isCan : Bool)
  | dup (oldfd ret : ℤ)
  | dup2 (oldfd ret : ℤ)
  | close (fd : ℤ)

namespace SocketCache

variable (nyxNetPort : UInt16) (self : SocketCache)

/-- `assert` of what a function has returned. -/
def asserted (r : Option (SocketCache × Bool)) : Option SocketCache :=
  r.bind fun (self, ok) => if ok then some self else none

def connectToServer (port : UInt16) (client : Option ℤ) : Option SocketCache :=
  if port ≠ nyxNetPort then some self
  else client.bind fun socket => asserted (self.setClientSocketToConnection port socket)

def listen (port : Option UInt16) (client : Option ℤ) : Option SocketCache :=
  match port with
  | none => some self
  | some port =>
    if self.connectionExists port || port ≠ nyxNetPort then some self
    else (self.addConnection port).bind fun self =>
      if self.released then some self else self.connectToServer nyxNetPort port client

/-- `accept4` -/
def accept (ret : ℤ) (port : Option UInt16) : Option SocketCache :=
  match port with
  | none => some self
  | some port =>
    if ret ≠ -1 ∧ port = nyxNetPort then asserted (self.setServerSocketToConnection port ret)
    else some self

/-- `bind` in `CAN_MODE` -/
def bind (sockfd ret : ℤ) (isCan : Bool) : Option SocketCache :=
  if isCan then
    (if self.connectionExistsCan then some self else self.addConnectionCan).bind fun self =>
      if ret ≠ -1 ∧ !self.released then
        (self.setServerSocketToConnectionCan sockfd).map Prod.fst
      else some self
  else some self

def bindNewfd (oldfd ret : ℤ) : Option SocketCache :=
  (self.serverSocketToPort oldfd).bind fun port =>
    (self.setServerSocketToConnection port ret).map Prod.fst

def dup (oldfd ret : ℤ) : Option SocketCache :=
  if self.serverSocketExists oldfd ∧ ret ≠ -1 then self.bindNewfd oldfd ret else some self

def dup2 (oldfd ret : ℤ) : Option SocketCache :=
  if self.serverSocketExists oldfd ∧ ret ≠ -1 then
    (self.disableConnectionByServerSocket ret).bindNewfd oldfd ret
  else some self

def close (fd : ℤ) : SocketCache :=
  if self.serverSocketExists fd then
    let self := self.disableConnectionByServerSocket fd
    if self.activeConNum = 0 then { self with released := true } else self
  else self

def step (self : SocketCache) (call : SocketCall) : Option SocketCache :=
  if self.released then none
  else
    match call with
    | .listen port client => self.listen nyxNetPort port client
    | .accept ret port => self.accept nyxNetPort ret port
    | .bind sockfd ret isCan => self.bind sockfd ret isCan
    | .dup oldfd ret => self.dup oldfd ret
    | .dup2 oldfd ret => self.dup2 oldfd ret
    | .close fd => some (self.close fd)

end SocketCache

end FuzzSocketCan
