import WsChat.Packets

/-! The event handlers of `Server`, the saved state, and the runs of the server. -/
namespace WsChat
open Lib

def MemberInfo.serialize (info : MemberInfo) : Json :=
  .obj [(utf8 "user_id", .uint info.userId), (utf8 "nick", .str info.nick),
    (utf8 "girl", .bool info.girl), (utf8 "color", .str info.color)]

def MemberInfo.deserialize (val : Json) : Except Json.Error MemberInfo := do
  let userId ← (← val.get (utf8 "user_id")).asUInt
  let nick ← (← val.get (utf8 "nick")).asString
  let girl ← (← val.get (utf8 "girl")).asBool
  let color ← (← val.get (utf8 "color")).asString
  return { userId, nick, girl, color }

def Room.serialize (rm : Room) : Json :=
  .obj [(utf8 "owner_id", .uint rm.ownerId), (utf8 "name", .str rm.name),
    (utf8 "nextMessageId", .uint rm.nextMessageId),
    (utf8 "history", .arr (rm.history.map .str)),
    (utf8 "members_info", .arr (rm.membersInfo.entries.map fun p => p.2.serialize)),
    (utf8 "bannedNicks", .arr (rm.bannedNicks.elems.map .str)),
    (utf8 "bannedIps", .arr (rm.bannedIps.elems.map .str)),
    (utf8 "bannedUids", .arr (rm.bannedUids.elems.map .uint)),
    (utf8 "moderators", .arr (rm.moderators.elems.map .uint))]

def setOf {α : Type} [DecidableEq α] (l : List α) : IterSet α := l.foldl (fun s a => s.insert a) ∅

def Room.deserialize (val : Json) : Except Json.Error Room := do
  let ownerId ← (← val.get (utf8 "owner_id")).asUInt
  let name ← (← val.get (utf8 "name")).asString
  let nextMessageId ← (← val.get (utf8 "nextMessageId")).asUInt
  let history ← (← val.get (utf8 "history")).items.mapM Json.asString
  let infos ← (← val.get (utf8 "members_info")).items.mapM MemberInfo.deserialize
  let bannedNicks ← (← val.get (utf8 "bannedNicks")).items.mapM Json.asString
  let bannedIps ← (← val.get (utf8 "bannedIps")).items.mapM Json.asString
  let bannedUids ← (← val.get (utf8 "bannedUids")).items.mapM Json.asUInt
  let moderators ← (← val.get (utf8 "moderators")).items.mapM Json.asUInt
  return {
    ownerId, name, nextMessageId, history
    membersInfo := infos.foldl (fun t info => t.insert info.userId info) ∅
    bannedNicks := setOf bannedNicks
    bannedIps := setOf bannedIps
    bannedUids := setOf bannedUids
    moderators := setOf moderators }

/-- Without rooms the member stays null. -/
def Server.serialize (w : World) : Json :=
  .obj [(utf8 "rooms", match w.rooms.elems with
    | [] => .null
    | rooms => .arr (rooms.map fun r => (w.roomAt r).serialize))]

def Server.deserializeRoom (w : World) (val : Json) : Except Json.Error World := do
  let rm ← Room.deserialize val
  let r : RoomPtr := ⟨w.nextRoom⟩
  return { w with
    nextRoom := w.nextRoom + 1
    roomAt := Function.update w.roomAt r rm
    rooms := w.rooms.insert r w.order.rooms }

/-- An exception ends the loop and the rooms loaded so far stay. -/
def Server.deserializeRooms : List Json → World → World
  | [], w => w
  | val :: vals, w =>
    match Server.deserializeRoom w val with
    | .ok w => Server.deserializeRooms vals w
    | .error _ => w

def Server.deserialize (w : World) (val : Json) : World :=
  match val.get (utf8 "rooms") with
  | .ok rooms => Server.deserializeRooms rooms.items { w with rooms := ∅ }
  | .error _ => { w with rooms := ∅ }

/-- A new process. What was seen from outside and the file `rooms.dat` stay. -/
def World.fresh (w : World) : World where
  order := w.order
  now := w.now
  disk := w.disk
  opened := w.opened
  sent := w.sent
  closing := w.closing
  nullDeref := w.nullDeref
  clamped := w.clamped

def World.restart (w : World) : World := Server.deserialize w.fresh w.disk

section
variable (env : Env)

def Server.orphanTimeout : Int := 5 * 60
def Server.connectTimeout : Int := 150
def Server.pingTimeout : Int := 1 * 60
def Server.maxConnectionsFromIp : Int := 5
def Server.maxClientsFromIp : Int := 5

/-- A message that does not parse, is of no type or throws while it is read is dropped. -/
def Client.onPacket (sv : AuthServices) (w : World) (c : ClientPtr) (msg : Option Json) : World :=
  match msg.map (Packet.read env.unset) with
  | some (.ok (some pack)) =>
    let w := w.modifyClient c fun cli => { cli with lastPacketTime := w.now }
    pack.process env sv w c
  | _ => w

def Server.onMessage (sv : AuthServices) (w : World) (k : ConnectionPtr) (msg : Option Json) :
    World :=
  match ClientsManager.findClientByConnection w k with
  | some c => Client.onPacket env sv w c msg
  | none => w

def Server.isOrphanOf (w : World) (ip : Bytes) (c : ClientPtr) : Bool :=
  (w.clientAt c).connection.isNone && (w.clientAt c).lastClientIP == ip

/-- Make room for a new client by removing the oldest orphan of the address. -/
def Server.evictOrphan (w : World) (ip : Bytes) (counter : Counter) : World :=
  if Server.maxClientsFromIp ≤ counter.clients then
    match ClientsManager.findFirstClient w (Server.isOrphanOf w ip) with
    | some orphanCli => ClientsManager.remove env w orphanCli
    | none => w
  else w

def Server.onOpen (w : World) (k : ConnectionPtr) (draws : List ClientsManager.Token) : World :=
  let ip := env.realIp k
  let (counter, w) := ClientsManager.getCounterFromIp w ip
  if Server.maxConnectionsFromIp ≤ counter.connections then Server.closeConnection w k
  else ClientsManager.connect env (Server.evictOrphan env w ip counter) k draws

def Server.onClose (w : World) (k : ConnectionPtr) (status : Int) : World :=
  if status = 1000 ∨ status = 1001 then ClientsManager.removeByConnection env w k
  else ClientsManager.makeOrphanByConnection env w k

def Server.onError (w : World) (k : ConnectionPtr) : World :=
  ClientsManager.makeOrphanByConnection env w k

/-- One turn of the first loop of the timer, which also collects the outdated clients. -/
def Server.tickClient (acc : World × List ClientPtr) (c : ClientPtr) : World × List ClientPtr :=
  let (w, toKick) := acc
  let timeWasted := w.now - (w.clientAt c).lastPacketTime
  if Server.orphanTimeout < timeWasted then (w, toKick ++ [c])
  else if Server.connectTimeout < timeWasted then
    match (w.clientAt c).connection with
    | some k => (ClientsManager.makeOrphan env (Server.closeConnection w k) c, toKick)
    | none => (w, toKick)
  else if Server.pingTimeout < timeWasted then (Client.sendPacket w c .ping, toKick)
  else (w, toKick)

def Server.kickOutdated (w : World) (c : ClientPtr) : World :=
  let w := match (w.clientAt c).connection with
    | some k => Server.closeConnection w k
    | none => w
  ClientsManager.remove env w c

def Server.onTimer (w : World) : World :=
  let (w, toKick) := w.manager.clients.foldl (Server.tickClient env) (w, [])
  toKick.foldl (Server.kickOutdated env) w

/-- What can happen to the server: a connection opens, delivers a message (the value the
JSON reader gives, if it parses), closes or fails, the timer fires, the state is saved,
the process starts anew. -/
inductive Act where
  | connected (k : ConnectionPtr) (draws : List ClientsManager.Token)
  | message (k : ConnectionPtr) (msg : Option Json) (sv : AuthServices)
  | closed (k : ConnectionPtr) (status : Int)
  | failed (k : ConnectionPtr)
  | tick
  | save
  | restart

structure Event where
  now : Int
  act : Act

/-- The handlers of a running server. A connection object is opened once. -/
def World.handle (w : World) : Act → World
  | .connected k draws =>
    if k ∈ w.opened then w
    else Server.onOpen env { w with opened := k :: w.opened } k draws
  | .message k msg sv => Server.onMessage env sv w k msg
  | .closed k status => Server.onClose env w k status
  | .failed k => Server.onError env w k
  | .tick => Server.onTimer env w
  | .save => { w with disk := Server.serialize w }
  | .restart => w.restart

/-- A server caught in a loop handles nothing until it is started anew. -/
def World.step (w : World) (e : Event) : World :=
  let w := { w with now := e.now }
  match w.hung, e.act with
  | false, act => w.handle env act
  | true, .save => w.handle env .save
  | true, .restart => w.handle env .restart
  | true, _ => w

def World.boot : World := { order := env.order }

def run (es : List Event) : World := es.foldl (World.step env) (World.boot env)

end
end WsChat
