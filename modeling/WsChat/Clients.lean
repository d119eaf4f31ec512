import WsChat.Rooms

/-! `Client`, `ClientsManager`, and the operations of `Server` on rooms and clients. -/
namespace WsChat
open Lib

section
variable (env : Env)

def Client.setConnection (w : World) (c : ClientPtr) (conn : Option ConnectionPtr) : World :=
  w.modifyClient c fun cli => { cli with
    connection := conn
    lastClientIP := match conn with
      | some k => env.realIp k
      | none => cli.lastClientIP }

def Client.onReviveRoom (c : ClientPtr) (w : World) (r : RoomPtr) : World :=
  match Room.findMemberByClient w r c with
  | none => w.deref
  | some m =>
    let w := Member.setStatus w m .online
    let w := Client.sendPacket w c (.join (PacketJoin.ofMember w m))
    let w := Client.sendPacket w c (.onlineList (PacketOnlineList.ofRoom w r))
    let w := (w.roomAt r).history.foldl (fun w s => Client.sendRawData w c s) w
    if (w.memberAt m).hasNick then
      Room.sendPacketToAll env w r (.status (PacketStatus.ofMember w m .back))
    else w

def Client.onRevive (w : World) (c : ClientPtr) : World :=
  let w := w.modifyClient c fun cli => { cli with lastPacketTime := w.now }
  (w.clientAt c).rooms.elems.foldl (Client.onReviveRoom env c) w

def Client.onDisconnectRoom (c : ClientPtr) (w : World) (r : RoomPtr) : World :=
  match Room.findMemberByClient w r c with
  | none => w.deref
  | some m =>
    let w := Member.setStatus w m .orphan
    if (w.memberAt m).hasNick then
      Room.sendPacketToAll env w r (.status (PacketStatus.ofMember w m .orphan))
    else w

def Client.onDisconnect (w : World) (c : ClientPtr) : World :=
  let w := Client.setConnection env w c none
  (w.clientAt c).rooms.elems.foldl (Client.onDisconnectRoom env c) w

/-- The member that `onRemove` looks up before `removeMember` does is not used. -/
def Client.onRemove (w : World) (c : ClientPtr) : World :=
  let w := (w.clientAt c).rooms.elems.foldl (fun w r => Room.removeMember env w r c) w
  let w := w.modifyClient c fun cli => { cli with rooms := ∅ }
  Client.setConnection env w c none

def Client.joinRoom (w : World) (c : ClientPtr) (r : RoomPtr) :
    World × Except JoinFailure MemberPtr :=
  match Room.addMember w r c with
  | (w, .error e) => (w, .error e)
  | (w, .ok m) =>
    let w := w.modifyClient c fun cli => { cli with rooms := cli.rooms.insert r w.order.connectedRooms }
    (Member.setStatus w m .online, .ok m)

def Client.leaveRoom (w : World) (c : ClientPtr) (r : RoomPtr) : World :=
  if r ∈ (w.clientAt c).rooms then
    let w := w.modifyClient c fun cli => { cli with rooms := cli.rooms.erase r }
    Room.removeMember env w r c
  else w

def Client.getRoomByName (w : World) (c : ClientPtr) (name : Bytes) : Option RoomPtr :=
  (w.clientAt c).rooms.elems.find? fun r => (w.roomAt r).name == name

def Keygen.alphabet : Bytes :=
  utf8 "abcdefghijklmnopqrstuvwxyzABCDEFGHIJKLMNOPQRSTUVWXYZ1234567890"

/-- What `generate` returns: so many letters, drawn from the alphabet. -/
abbrev Keygen.Key (len : Nat) := { s : Bytes // s.length = len ∧ ∀ b ∈ s, b ∈ Keygen.alphabet }

namespace ClientsManager

def findClientByConnection (w : World) (k : ConnectionPtr) : Option ClientPtr :=
  w.manager.connectionToClient.lookup k

def findClientByToken (w : World) (token : Bytes) : Option ClientPtr :=
  w.manager.tokenToClient.lookup token

def findFirstClient (w : World) (f : ClientPtr → Bool) : Option ClientPtr :=
  w.manager.clients.find? f

/-- `operator[]`: the counter of an address, a zero one being made for a new address. -/
def counterAt (w : World) (ip : Bytes) : Counter :=
  (w.manager.countersFromIp.lookup ip).getD {}

/-- `const Counter getCounterFromIp`, which also makes the entry. -/
def getCounterFromIp (w : World) (ip : Bytes) : Counter × World :=
  (counterAt w ip,
    { w with manager := { w.manager with
        countersFromIp := w.manager.countersFromIp.insert ip (counterAt w ip) } })

inductive Field where
  | connections
  | clients
  deriving DecidableEq, Repr

def Field.get (f : Field) (c : Counter) : Int :=
  match f with
  | .connections => c.connections
  | .clients => c.clients

def Field.set (f : Field) (c : Counter) (n : Int) : Counter :=
  match f with
  | .connections => { c with connections := n }
  | .clients => { c with clients := n }

def decrementForIp (w : World) (ip : Bytes) (field : Field) : World :=
  let counter := counterAt w ip
  let n := field.get counter - 1
  let w := if n < 0 then { w with clamped := true } else w
  let counter := field.set counter (if n < 0 then 0 else n)
  if counter.connections ≤ 0 ∧ counter.clients ≤ 0 then
    { w with manager := { w.manager with
        countersFromIp := w.manager.countersFromIp.erase ip } }
  else
    { w with manager := { w.manager with
        countersFromIp := w.manager.countersFromIp.insert ip counter } }

/-- `connectionToClient.erase(connection)` is the number of entries erased. -/
def eraseConnection (w : World) (k : ConnectionPtr) : World × Bool :=
  ({ w with manager := { w.manager with
      connectionToClient := w.manager.connectionToClient.erase k } },
    (w.manager.connectionToClient.lookup k).isSome)

def removeFromClients (w : World) (c : ClientPtr) : World × Bool :=
  if c ∈ w.manager.clients then
    ({ w with manager := { w.manager with
        clients := w.manager.clients.erase c
        tokenToClient := w.manager.tokenToClient.erase (w.clientAt c).token } }, true)
  else (w, false)

def tokenLength : Nat := 64

abbrev Token := Keygen.Key tokenLength

/-- `draws` are the tokens that `Keygen::generate` returned in this call. The loop ends
at the first one that is not in use. -/
def connect (w : World) (k : ConnectionPtr) (draws : List Token) : World :=
  match draws.find? fun t => !(w.manager.tokenToClient.lookup t.1).isSome with
  | none => { w with hung := true }
  | some ⟨token, _⟩ =>
    let c : ClientPtr := ⟨w.nextClient⟩
    let w := { w with
      nextClient := w.nextClient + 1
      clientAt := Function.update w.clientAt c
        { token := token, lastPacketTime := w.now, lastMessageTime := w.now } }
    let w := Client.setConnection env w c (some k)
    let ip := (w.clientAt c).lastClientIP
    let counter := counterAt w ip
    { w with manager := {
        clients := w.manager.clients ++ [c]
        connectionToClient := w.manager.connectionToClient.insert k c
        tokenToClient := w.manager.tokenToClient.insert token c
        countersFromIp := w.manager.countersFromIp.insert ip {
          clients := counter.clients + 1
          connections := counter.connections + 1 } } }

def makeOrphan (w : World) (c : ClientPtr) : World :=
  match (w.clientAt c).connection with
  | none => w
  | some k =>
    match eraseConnection w k with
    | (w, false) => w
    | (w, true) =>
      let w := decrementForIp w (w.clientAt c).lastClientIP .connections
      Client.onDisconnect env w c

def makeOrphanByConnection (w : World) (k : ConnectionPtr) : World :=
  match findClientByConnection w k with
  | some c => makeOrphan env w c
  | none => w

def remove (w : World) (c : ClientPtr) : World :=
  let ip := (w.clientAt c).lastClientIP
  let w := match (w.clientAt c).connection with
    | none => w
    | some k =>
      match eraseConnection w k with
      | (w, true) => decrementForIp w ip .connections
      | (w, false) => w
  let w := match removeFromClients w c with
    | (w, true) => decrementForIp w ip .clients
    | (w, false) => w
  Client.onRemove env w c

def removeByConnection (w : World) (k : ConnectionPtr) : World :=
  match findClientByConnection w k with
  | some c => remove env w c
  | none => w

def reviveClient (w : World) (current target : ClientPtr) : World × Bool :=
  match (w.clientAt current).connection with
  | none => (w, false)
  | some k =>
    let targetConnection := (w.clientAt target).connection
    let targetIp := (w.clientAt target).lastClientIP
    let w := match targetConnection with
      | none => w
      | some t =>
        match eraseConnection w t with
        | (w, true) => decrementForIp w targetIp .connections
        | (w, false) => w
    let w := decrementForIp w targetIp .clients
    let w := (removeFromClients w current).1
    let w := Client.onRemove env w current
    let w := { w with manager := { w.manager with
      connectionToClient := w.manager.connectionToClient.insert k target } }
    let w := Client.setConnection env w target (some k)
    (Client.onRevive env w target, true)

end ClientsManager

/-- One turn of the loop of `onDestroy`, which runs over a copy of the members. -/
def Room.onDestroyMember (r : RoomPtr) (w : World) (m : MemberPtr) : World :=
  let w := Client.leaveRoom env w (w.memberAt m).client r
  Member.sendPacket w m (.leave { target := (w.roomAt r).name })

def Room.onDestroy (w : World) (r : RoomPtr) : World :=
  (w.roomAt r).members.elems.foldl (Room.onDestroyMember env r) w

namespace Server

def getRoomByName (w : World) (name : Bytes) : Option RoomPtr :=
  w.rooms.elems.find? fun r => (w.roomAt r).name == name

def createRoom (w : World) (name : Bytes) : World × Option RoomPtr :=
  match getRoomByName w name with
  | some _ => (w, none)
  | none =>
    let r : RoomPtr := ⟨w.nextRoom⟩
    ({ w with
      nextRoom := w.nextRoom + 1
      roomAt := Function.update w.roomAt r { name := name }
      rooms := w.rooms.insert r w.order.rooms }, some r)

def removeRoom (w : World) (name : Bytes) : World :=
  match getRoomByName w name with
  | some r => Room.onDestroy env { w with rooms := w.rooms.erase r } r
  | none => w

def closeConnection (w : World) (k : ConnectionPtr) : World :=
  { w with closing := w.closing ++ [k] }

def reviveClient (w : World) (current target : ClientPtr) : World × Bool :=
  let currentConnection := (w.clientAt current).connection
  let targetConnection := (w.clientAt target).connection
  let (w, result) := ClientsManager.reviveClient env w current target
  match targetConnection with
  | some t => (if currentConnection ≠ some t then closeConnection w t else w, result)
  | none => (w, result)

end Server
end
end WsChat
