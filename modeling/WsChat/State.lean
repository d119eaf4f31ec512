import WsChat.Lib.IterSet
import WsChat.Lib.Json
import Mathlib.Data.List.AList
import Mathlib.Logic.Function.Basic
import Mathlib.Tactic.Simps.Basic

/-! The data of the chat server: clients, members and rooms on a heap, the client
registry, the packets, and the world that the event handlers act on. -/
namespace WsChat
open Lib

structure ConnectionPtr where
  addr : Nat
  deriving DecidableEq, Repr

structure ClientPtr where
  addr : Nat
  deriving DecidableEq, Repr

structure MemberPtr where
  addr : Nat
  deriving DecidableEq, Repr

structure RoomPtr where
  addr : Nat
  deriving DecidableEq, Repr

structure Client where
  connection : Option ConnectionPtr := none
  rooms : IterSet RoomPtr := ∅
  name : Bytes := []
  uid : UInt32 := 0
  isGirl : Bool := false
  color : Bytes := utf8 "gray"
  lastClientIP : Bytes := []
  token : Bytes := []
  lastPacketTime : Int := 0
  lastMessageTime : Int := 0
  messageCounter : Int := 0

instance : Inhabited Client := ⟨{}⟩

def Client.isAdmin (c : Client) : Bool := c.uid == 1 || c.uid == 2
def Client.isGuest (c : Client) : Bool := c.uid ≤ 0

/-- `Member::Status`. A number outside the enumeration can arrive in a packet. -/
inductive Status where
  | bad | offline | online | away | nickChange | genderChange | colorChange
  | back | typing | stopTyping | orphan
  | other (code : Int)
  deriving DecidableEq, Repr

structure Member where
  id : UInt32 := 0
  client : ClientPtr
  room : RoomPtr
  nick : Bytes := []
  status : Status := .bad
  girl : Bool := false
  color : Bytes := utf8 "gray"
  lastSeenTime : Int := 0

instance : Inhabited Member := ⟨{ client := ⟨0⟩, room := ⟨0⟩ }⟩

def Member.hasNick (m : Member) : Bool := !m.nick.isEmpty

structure MemberInfo where
  userId : UInt32
  nick : Bytes
  girl : Bool
  color : Bytes
  deriving DecidableEq

structure Room where
  name : Bytes := []
  ownerId : UInt32 := 0xFFFFFFFF
  nextMessageId : UInt32 := 0
  members : IterSet MemberPtr := ∅
  membersInfo : AList (fun _ : UInt32 => MemberInfo) := ∅
  bannedNicks : IterSet Bytes := ∅
  bannedIps : IterSet Bytes := ∅
  bannedUids : IterSet UInt32 := ∅
  moderators : IterSet UInt32 := ∅
  history : List Bytes := []
  nextMemberId : UInt32 := 0

instance : Inhabited Room := ⟨{}⟩

inductive PacketType where
  | error | system | message | onlineList | auth | status | join | leave
  | createRoom | removeRoom | ping
  deriving DecidableEq, Repr

inductive ErrorCode where
  | unknown | databaseError | alreadyConnected | notFound | accessDenied
  | invalidTarget | alreadyExists | incorrectLoginpass | userBanned
  deriving DecidableEq, Repr

structure PacketError where
  sequenceId : Option UInt32 := none
  source : PacketType
  target : Bytes := []
  code : ErrorCode
  info : Bytes := []
  deriving DecidableEq

structure PacketSystem where
  sequenceId : Option UInt32 := none
  target : Bytes := []
  message : Bytes := []
  deriving DecidableEq

inductive Style where
  | message | me | event | offtop
  deriving DecidableEq, Repr

structure PacketMessage where
  sequenceId : Option UInt32 := none
  id : Bytes := []
  msgtime : Int := 0
  target : Bytes := []
  message : Bytes := []
  color : Bytes := []
  fromLogin : Bytes := []
  fromId : UInt32 := 0
  toId : UInt32 := 0
  style : Style := .message
  deriving DecidableEq

structure PacketStatus where
  sequenceId : Option UInt32 := none
  target : Bytes := []
  status : Status := .bad
  memberId : UInt32 := 0
  userId : UInt32 := 0
  girl : Bool := false
  color : Bytes := []
  name : Bytes := []
  data : Bytes := []
  isOwner : Bool := false
  isModer : Bool := false
  lastSeenTime : Int := 0
  deriving DecidableEq

structure PacketOnlineList where
  sequenceId : Option UInt32 := none
  target : Bytes := []
  list : List PacketStatus := []
  deriving DecidableEq

structure PacketAuth where
  sequenceId : Option UInt32 := none
  ukey : Bytes := []
  apiKey : Bytes := []
  userId : UInt32 := 0
  name : Bytes := []
  password : Bytes := []
  token : Bytes := []
  deriving DecidableEq

structure PacketJoin where
  sequenceId : Option UInt32 := none
  target : Bytes := []
  memberId : UInt32 := 0
  login : Bytes := []
  autoLogin : Bool := true
  loadHistory : Bool := true
  deriving DecidableEq

/-- `PacketLeave`, `PacketCreateRoom` and `PacketRemoveRoom` have the same fields. -/
structure PacketTarget where
  sequenceId : Option UInt32 := none
  target : Bytes := []
  deriving DecidableEq

inductive Packet where
  | error (p : PacketError)
  | system (p : PacketSystem)
  | message (p : PacketMessage)
  | onlineList (p : PacketOnlineList)
  | auth (p : PacketAuth)
  | status (p : PacketStatus)
  | join (p : PacketJoin)
  | leave (p : PacketTarget)
  | createRoom (p : PacketTarget)
  | removeRoom (p : PacketTarget)
  | ping (sequenceId : Option UInt32 := none)
  deriving DecidableEq

/-- What goes out on a connection: a packet, or a stored line of history as it is. -/
inductive Wire where
  | packet (p : Packet)
  | raw (data : Bytes)
  deriving DecidableEq

structure Counter where
  connections : Int := 0
  clients : Int := 0
  deriving DecidableEq, Repr

structure ClientsManager where
  clients : List ClientPtr := []
  connectionToClient : AList (fun _ : ConnectionPtr => ClientPtr) := ∅
  countersFromIp : AList (fun _ : Bytes => Counter) := ∅
  tokenToClient : AList (fun _ : Bytes => ClientPtr) := ∅

/-- The orders in which the sets of pointers are visited. They come from the addresses of the objects. -/
structure Order where
  members : Placement MemberPtr := .back
  rooms : Placement RoomPtr := .back
  connectedRooms : Placement RoomPtr := .back

/-- What the fields hold that no constructor sets and `deserialize` leaves alone, and what lies in front of the
array of colours. -/
structure Unset where
  source : PacketType := .error
  code : ErrorCode := .unknown
  userId : UInt32 := 0
  color : Int → Bytes := fun _ => []

/-- What the code reads from its surroundings and never changes: the address of a
connection (`getRealClientIp`), its `sinid` cookie, the configured history length,
the text of a JSON value and the value of a text, and what the language leaves open. -/
structure Env where
  realIp : ConnectionPtr → Bytes
  sinid : ConnectionPtr → Option Bytes
  maxHistory : Int
  write : Json → Bytes
  parse : Bytes → Option Json
  order : Order := {}
  unset : Unset := {}

/-- The heap, the server object, and what was seen from outside so far. `opened`
lists the connections that were ever opened, `sent` and `closing` what the handlers
did to connections. The last three fields record that a null pointer was read, that
a loop without exit was entered, and that a counter was clamped. -/
structure World where
  clientAt : ClientPtr → Client := fun _ => default
  memberAt : MemberPtr → Member := fun _ => default
  roomAt : RoomPtr → Room := fun _ => default
  nextClient : Nat := 0
  nextMember : Nat := 0
  nextRoom : Nat := 0
  manager : ClientsManager := {}
  rooms : IterSet RoomPtr := ∅
  order : Order := {}
  now : Int := 0
  disk : Json := .null
  opened : List ConnectionPtr := []
  sent : List (ConnectionPtr × Wire) := []
  closing : List ConnectionPtr := []
  nullDeref : Bool := false
  hung : Bool := false
  clamped : Bool := false

namespace World

@[simps -fullyApplied]
def modifyClient (w : World) (c : ClientPtr) (f : Client → Client) : World :=
  { w with clientAt := Function.update w.clientAt c (f (w.clientAt c)) }

@[simps -fullyApplied]
def modifyMember (w : World) (m : MemberPtr) (f : Member → Member) : World :=
  { w with memberAt := Function.update w.memberAt m (f (w.memberAt m)) }

@[simps -fullyApplied]
def modifyRoom (w : World) (r : RoomPtr) (f : Room → Room) : World :=
  { w with roomAt := Function.update w.roomAt r (f (w.roomAt r)) }

@[simps -fullyApplied]
def deref (w : World) : World := { w with nullDeref := true }

end World
end WsChat
