import WsChat.State

/-! Sending, the packets that are built from the state, and the operations of
`Member` and `Room`. -/
namespace WsChat
open Lib

def Server.sendPacket (w : World) (k : ConnectionPtr) (p : Packet) : World :=
  { w with sent := w.sent ++ [(k, .packet p)] }

def Server.sendRawData (w : World) (k : ConnectionPtr) (data : Bytes) : World :=
  { w with sent := w.sent ++ [(k, .raw data)] }

def Client.sendPacket (w : World) (c : ClientPtr) (p : Packet) : World :=
  match (w.clientAt c).connection with
  | some k => Server.sendPacket w k p
  | none => w

def Client.sendRawData (w : World) (c : ClientPtr) (data : Bytes) : World :=
  match (w.clientAt c).connection with
  | some k => Server.sendRawData w k data
  | none => w

def Member.sendPacket (w : World) (m : MemberPtr) (p : Packet) : World :=
  Client.sendPacket w (w.memberAt m).client p

def Member.isAdmin (w : World) (m : MemberPtr) : Bool := (w.clientAt (w.memberAt m).client).isAdmin

def Member.isOwner (w : World) (m : MemberPtr) : Bool :=
  let uid := (w.clientAt (w.memberAt m).client).uid
  Member.isAdmin w m || (uid != 0 && uid == (w.roomAt (w.memberAt m).room).ownerId)

def Member.isModer (w : World) (m : MemberPtr) : Bool :=
  let uid := (w.clientAt (w.memberAt m).client).uid
  Member.isOwner w m || (uid != 0 && decide (uid ∈ (w.roomAt (w.memberAt m).room).moderators))

def PacketStatus.ofMember (w : World) (m : MemberPtr) (stat : Status) (data : Bytes := []) :
    PacketStatus :=
  let mem := w.memberAt m
  { target := (w.roomAt mem.room).name
    name := mem.nick
    memberId := mem.id
    userId := (w.clientAt mem.client).uid
    girl := mem.girl
    color := mem.color
    status := stat
    data := data
    isOwner := Member.isOwner w m
    isModer := Member.isOwner w m || Member.isModer w m
    lastSeenTime := mem.lastSeenTime }

def PacketOnlineList.ofRoom (w : World) (r : RoomPtr) (sequenceId : Option UInt32 := none) :
    PacketOnlineList :=
  { sequenceId := sequenceId
    target := (w.roomAt r).name
    list := ((w.roomAt r).members.elems.filter fun m => (w.memberAt m).hasNick).map fun m =>
      PacketStatus.ofMember w m (w.memberAt m).status }

def PacketJoin.ofMember (w : World) (m : MemberPtr) (sequenceId : Option UInt32 := none) :
    PacketJoin :=
  { sequenceId := sequenceId
    target := (w.roomAt (w.memberAt m).room).name
    memberId := (w.memberAt m).id
    login := (w.memberAt m).nick }

def PacketMessage.ofMember (w : World) (m : MemberPtr) (msg : Bytes) : PacketMessage :=
  { target := (w.roomAt (w.memberAt m).room).name
    fromLogin := (w.memberAt m).nick
    fromId := (w.memberAt m).id
    color := (w.memberAt m).color
    message := msg
    msgtime := w.now }

def PacketMessage.ofMembers (w : World) (src dst : MemberPtr) (msg : Bytes) : PacketMessage :=
  { PacketMessage.ofMember w src msg with toId := (w.memberAt dst).id }

def Style.code : Style → Int
  | .message => 0
  | .me => 1
  | .event => 2
  | .offtop => 3

def PacketMessage.serialize (p : PacketMessage) : Json :=
  .obj ((p.sequenceId.toList.map fun n => (utf8 "sequenceId", Json.uint n)) ++
    [(utf8 "id", .str p.id), (utf8 "type", .int 2), (utf8 "target", .str p.target),
     (utf8 "time", .int (p.msgtime % 2 ^ 64)), (utf8 "color", .str p.color),
     (utf8 "from_login", .str p.fromLogin), (utf8 "from", Json.uint p.fromId),
     (utf8 "to", Json.uint p.toId), (utf8 "style", .int p.style.code),
     (utf8 "message", .str p.message)])

section
variable (env : Env)

def Room.findMemberByClient (w : World) (r : RoomPtr) (c : ClientPtr) : Option MemberPtr :=
  (w.roomAt r).members.elems.find? fun m => (w.memberAt m).client = c

def Room.findMemberByNick (w : World) (r : RoomPtr) (nick : Bytes) : Option MemberPtr :=
  (w.roomAt r).members.elems.find? fun m => (w.memberAt m).hasNick && (w.memberAt m).nick == nick

def Room.findMemberById (w : World) (r : RoomPtr) (id : UInt32) : Option MemberPtr :=
  (w.roomAt r).members.elems.find? fun m => (w.memberAt m).id == id

/-- Drop the oldest lines while there are more than `maxHistory`. The comparison is
between unsigned numbers. -/
def Room.trimHistory (maxHistory : Int) : List Bytes → List Bytes
  | [] => []
  | s :: rest =>
    if (maxHistory % 2 ^ 64).toNat < rest.length + 1 then Room.trimHistory maxHistory rest
    else s :: rest

def Room.addToHistory (w : World) (r : RoomPtr) (p : Packet) : World :=
  match p with
  | .message pm =>
    if pm.toId = 0 then
      w.modifyRoom r fun rm => { rm with
        history := Room.trimHistory env.maxHistory (rm.history ++ [env.write pm.serialize]) }
    else w
  | _ => w

def Room.sendPacketToAll (w : World) (r : RoomPtr) (p : Packet) : World :=
  (w.roomAt r).members.elems.foldl (fun w m => Member.sendPacket w m p) (Room.addToHistory env w r p)

def Room.newMessageId (w : World) (r : RoomPtr) : UInt32 × World :=
  ((w.roomAt r).nextMessageId,
    w.modifyRoom r fun rm => { rm with nextMessageId := rm.nextMessageId + 1 })

def Member.setStatus (w : World) (m : MemberPtr) (stat : Status) : World :=
  w.modifyMember m fun mem => { mem with
    lastSeenTime := if stat ≠ mem.status ∧ mem.status = .away then w.now else mem.lastSeenTime
    status := stat }

def Member.setGirl (w : World) (m : MemberPtr) (g : Bool) : World :=
  w.modifyMember m fun mem => { mem with girl := g }

def Member.setColor (w : World) (m : MemberPtr) (clr : Bytes) : World :=
  w.modifyMember m fun mem => { mem with color := clr }

/-- The status packet that tells a new nick: the member appears under its present
status, disappears with its old nick, or is renamed. -/
def Member.nickPacket (w : World) (m : MemberPtr) (oldnick : Bytes) : PacketStatus :=
  let spack := PacketStatus.ofMember w m (w.memberAt m).status
  if oldnick = [] then spack
  else if (w.memberAt m).nick = [] then { spack with status := .offline, name := oldnick }
  else { spack with status := .nickChange, data := oldnick }

def Member.setNick (w : World) (m : MemberPtr) (nnick : Bytes) : World :=
  let mem := w.memberAt m
  if mem.nick = nnick then w
  else if !Member.isModer w m && decide (nnick ∈ (w.roomAt mem.room).bannedNicks) then
    Member.sendPacket w m (.system {
      target := (w.roomAt mem.room).name
      message := utf8 "Данный ник запрещен, выберите другой" })
  else
    let w := w.modifyMember m fun mem => { mem with nick := nnick }
    Room.sendPacketToAll env w mem.room (.status (Member.nickPacket w m mem.nick))

def MemberInfo.ofMember (w : World) (m : MemberPtr) : MemberInfo :=
  { userId := (w.clientAt (w.memberAt m).client).uid
    nick := (w.memberAt m).nick
    girl := (w.memberAt m).girl
    color := (w.memberAt m).color }

/-- The loop of `genNextMemberId`. After 2^32 turns every number was tried and the loop
has no exit. -/
def Room.genNextMemberIdLoop (w : World) (r : RoomPtr) : Nat → UInt32 → Option UInt32
  | 0, _ => none
  | fuel + 1, id =>
    if id + 1 == 0 || (Room.findMemberById w r (id + 1)).isSome then
      Room.genNextMemberIdLoop w r fuel (id + 1)
    else some (id + 1)

def Room.genNextMemberId (w : World) (r : RoomPtr) : Option UInt32 :=
  Room.genNextMemberIdLoop w r (2 ^ 32) (w.roomAt r).nextMemberId

/-- How `addMember` ends without a member: by one of its two exceptions, or never. -/
inductive JoinFailure where
  | bannedByIP
  | bannedByID
  | hung
  deriving DecidableEq, Repr

def Room.addMember (w : World) (r : RoomPtr) (user : ClientPtr) :
    World × Except JoinFailure MemberPtr :=
  match Room.genNextMemberId w r with
  | none => ({ w with hung := true }, .error .hung)
  | some id =>
    let m : MemberPtr := ⟨w.nextMember⟩
    let w := { w with
      nextMember := w.nextMember + 1
      memberAt := Function.update w.memberAt m
        { id := id, client := user, room := r, lastSeenTime := w.now } }
    let w := w.modifyRoom r fun rm => { rm with nextMemberId := id }
    if !Member.isModer w m && decide ((w.clientAt user).lastClientIP ∈ (w.roomAt r).bannedIps) then
      (w, .error .bannedByIP)
    else if !Member.isModer w m && decide ((w.clientAt user).uid ∈ (w.roomAt r).bannedUids) then
      (w, .error .bannedByID)
    else
      (w.modifyRoom r fun rm => { rm with members := rm.members.insert m w.order.members }, .ok m)

def Room.removeMember (w : World) (r : RoomPtr) (user : ClientPtr) : World :=
  match Room.findMemberByClient w r user with
  | none => w.deref
  | some m =>
    let w := if (w.memberAt m).hasNick then
        Room.sendPacketToAll env w r (.status (PacketStatus.ofMember w m .offline))
      else w
    let cli := w.clientAt (w.memberAt m).client
    let w := if !cli.isGuest then
        w.modifyRoom r fun rm => { rm with
          membersInfo := rm.membersInfo.insert cli.uid (MemberInfo.ofMember w m) }
      else w
    w.modifyRoom r fun rm => { rm with members := rm.members.erase m }

def Room.getStoredMemberInfo (w : World) (r : RoomPtr) (m : MemberPtr) : Option MemberInfo :=
  let uid := (w.clientAt (w.memberAt m).client).uid
  if uid = 0 then none else (w.roomAt r).membersInfo.lookup uid

def Client.onKick (w : World) (c : ClientPtr) (r : RoomPtr) : World :=
  w.modifyClient c fun cli => { cli with rooms := cli.rooms.erase r }

def Room.kickMember (w : World) (r : RoomPtr) (m : MemberPtr) : World :=
  let w := Client.onKick w (w.memberAt m).client r
  let w := if (w.memberAt m).hasNick then
      Room.sendPacketToAll env w r (.status (PacketStatus.ofMember w m .offline))
    else w
  let w := Member.sendPacket w m (.leave { target := (w.roomAt r).name })
  w.modifyRoom r fun rm => { rm with members := rm.members.erase m }

end
end WsChat
