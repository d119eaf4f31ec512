import WsChat.Commands
import WsChat.Lib.Utf8

/-! Decoding and processing of the packets a client sends. -/
namespace WsChat
open Lib

/-- The loop of `replaceInvalidUtf8`, whose fuel is the number of bytes. -/
def replaceInvalidUtf8From (replacement : UInt8) : Nat → Bytes → Bytes
  | 0, s => s
  | fuel + 1, s =>
    let n := Utf8.findInvalid s
    match s.drop n with
    | [] => s
    | _ :: rest => s.take n ++ replacement :: replaceInvalidUtf8From replacement fuel rest

def replaceInvalidUtf8 (s : Bytes) (replacement : UInt8) : Bytes :=
  replaceInvalidUtf8From replacement s.length s

/-- What `PacketMessage::deserialize` makes of the text. -/
def PacketMessage.sanitize (message : Bytes) : Bytes :=
  replaceInvalidUtf8 ((Rx.newlines.replace (utf8 "\n\n\n") message).take (30 * 1024)) 32

def Packet.deserialize (obj : Json) : Except Json.Error (Option UInt32) := do
  if ← obj.isMember (utf8 "sequenceId") then
    return some (← (← obj.get (utf8 "sequenceId")).asUInt)
  else return none

def PacketMessage.deserialize (obj : Json) : Except Json.Error PacketMessage := do
  let sequenceId ← Packet.deserialize obj
  let message ← (← obj.get (utf8 "message")).asString
  let target ← (← obj.get (utf8 "target")).asString
  let toId ← (← obj.get (utf8 "to")).asUInt
  let msgtime ← (← obj.get (utf8 "time")).asUInt64
  return { sequenceId, message := PacketMessage.sanitize message, target, toId, msgtime }

/-- The sequence id of the request is not read. -/
def PacketOnlineList.deserialize (obj : Json) : Except Json.Error PacketOnlineList := do
  let target ← (← obj.get (utf8 "target")).asString
  return { target }

def PacketAuth.deserialize (unset : Unset) (obj : Json) : Except Json.Error PacketAuth := do
  let sequenceId ← Packet.deserialize obj
  let ukey ← (← obj.get (utf8 "ukey")).asString
  let apiKey ← (← obj.get (utf8 "api_key")).asString
  let name ← (← obj.get (utf8 "login")).asString
  let password ← (← obj.get (utf8 "password")).asString
  let token ← (← obj.get (utf8 "token")).asString
  return { sequenceId, ukey, apiKey, userId := unset.userId, name, password, token }

def Status.ofInt : Int → Status
  | 0 => .bad
  | 1 => .offline
  | 2 => .online
  | 3 => .away
  | 4 => .nickChange
  | 5 => .genderChange
  | 6 => .colorChange
  | 7 => .back
  | 8 => .typing
  | 9 => .stopTyping
  | 10 => .orphan
  | n => .other n

def PacketStatus.deserialize (obj : Json) : Except Json.Error PacketStatus := do
  let sequenceId ← Packet.deserialize obj
  let target ← (← obj.get (utf8 "target")).asString
  let status ← (← obj.get (utf8 "status")).asInt
  return { sequenceId, target, status := Status.ofInt status }

def PacketJoin.deserialize (obj : Json) : Except Json.Error PacketJoin := do
  let sequenceId ← Packet.deserialize obj
  let target ← (← obj.get (utf8 "target")).asString
  let autoLogin ← (← obj.get (utf8 "auto_login")).asBool
  let loadHistory ← (← obj.get (utf8 "load_history")).asBool
  return { sequenceId, target, autoLogin, loadHistory }

/-- `deserialize` of `PacketLeave`, `PacketCreateRoom` and `PacketRemoveRoom`. -/
def PacketTarget.deserialize (obj : Json) : Except Json.Error PacketTarget := do
  let sequenceId ← Packet.deserialize obj
  let target ← (← obj.get (utf8 "target")).asString
  return { sequenceId, target }

/-- `Packet::read` on a parsed document: a packet, nothing for an unknown type, or an
exception. -/
def Packet.read (unset : Unset) (obj : Json) : Except Json.Error (Option Packet) := do
  match ← (← obj.get (utf8 "type")).asInt with
  | 0 => return some (.error {
      sequenceId := ← Packet.deserialize obj, source := unset.source, code := unset.code })
  | 1 => return some (.system { sequenceId := ← Packet.deserialize obj })
  | 2 => return some (.message (← PacketMessage.deserialize obj))
  | 3 => return some (.onlineList (← PacketOnlineList.deserialize obj))
  | 4 => return some (.auth (← PacketAuth.deserialize unset obj))
  | 5 => return some (.status (← PacketStatus.deserialize obj))
  | 6 => return some (.join (← PacketJoin.deserialize obj))
  | 7 => return some (.leave (← PacketTarget.deserialize obj))
  | 8 => return some (.createRoom (← PacketTarget.deserialize obj))
  | 9 => return some (.removeRoom (← PacketTarget.deserialize obj))
  | 10 => return some (.ping (← Packet.deserialize obj))
  | _ => return none

def Packet.fill (unset : Unset) : Packet → Packet
  | .error p => .error { p with source := unset.source, code := unset.code }
  | .auth p => .auth { p with userId := unset.userId }
  | p => p

theorem PacketAuth.deserialize_fill (unset unset' : Unset) (obj : Json) : PacketAuth.deserialize unset' obj =
    (PacketAuth.deserialize unset obj).map fun p => { p with userId := unset'.userId } := by
  change _ = (fun p : PacketAuth => { p with userId := unset'.userId }) <$> PacketAuth.deserialize unset obj
  simp only [PacketAuth.deserialize, map_bind, map_pure]

theorem Packet.read_fill (unset unset' : Unset) (obj : Json) :
    Packet.read unset' obj = (Packet.read unset obj).map (Option.map (Packet.fill unset')) := by
  change _ = Option.map (Packet.fill unset') <$> Packet.read unset obj
  unfold Packet.read
  simp only [map_bind]
  refine bind_congr fun type => bind_congr fun n => ?_
  split <;> simp only [map_bind, map_pure, Option.map_some, Option.map_none, Packet.fill]
  change Except.bind _ _ = Except.bind _ _
  rw [PacketAuth.deserialize_fill unset unset']
  cases PacketAuth.deserialize unset obj <;> rfl

theorem Packet.read_message {unset : Unset} (unset' : Unset) {obj : Json} {p : PacketMessage}
    (h : Packet.read unset obj = .ok (some (.message p))) : Packet.read unset' obj = .ok (some (.message p)) := by
  rw [Packet.read_fill unset unset', h]
  rfl

section
variable (env : Env)

/-- The tables in the order in which they are tried, each with its condition. -/
def PacketMessage.findCommand (w : World) (m : MemberPtr) (cmd : Bytes) : Option Command :=
  let table (allowed : Bool) (cmds : List Command) : Option Command :=
    if allowed then CommandProcessor.find cmds cmd else none
  table (Member.isAdmin w m) cmdAdmin <|>
  table (Member.isOwner w m) cmdOwner <|>
  table (Member.isModer w m) cmdModer <|>
  table (w.memberAt m).hasNick cmdUser <|>
  table (0 < (w.clientAt (w.memberAt m).client).uid) cmdAuthUser <|>
  table true cmdAll

/-- A text that is no command line is left to the caller. -/
def PacketMessage.processCommand (w : World) (m : MemberPtr) (r : RoomPtr) (msg : Bytes) :
    Option World :=
  if msg.head? ≠ some 47 then none
  else
    let badcmd := Member.sendPacket w m (.system {
      target := (w.roomAt r).name
      message := utf8 "Такая команда не существует или вы не вошли в чат" })
    match (RegexParser.ofInput msg).next Rx.cmd with
    | (false, _) => some badcmd
    | (true, parser) =>
      let (cmd, parser) := parser.shift
      let parser := (parser.next Rx.spaces).2
      match PacketMessage.findCommand w m (cmd.getD []) with
      | some command => some (command.process env w m parser)
      | none => some badcmd

/-- The counter starts again more than one second after it last did. -/
def PacketMessage.resetFlood (w : World) (c : ClientPtr) : World :=
  if 1 < w.now - (w.clientAt c).lastMessageTime then
    w.modifyClient c fun cli => { cli with messageCounter := 0, lastMessageTime := w.now }
  else w

def PacketMessage.process (w : World) (c : ClientPtr) (p : PacketMessage) : World :=
  if p.target = [] ∨ p.message = [] then w
  else
    let w := PacketMessage.resetFlood w c
    if 3 < (w.clientAt c).messageCounter then
      Client.sendPacket w c (.system {
        target := p.target, message := utf8 "Вы слишком часто пишете!" })
    else if Rx.blank.fullMatch p.message then
      Client.sendPacket w c (.system {
        target := p.target, message := utf8 "Вы забыли написать текст сообщения :(" })
    else
      let w := w.modifyClient c fun cli => { cli with messageCounter := cli.messageCounter + 1 }
      match Client.getRoomByName w c p.target with
      | none => Client.sendPacket w c (.system {
          message := utf8 "Вы не можете писать в комнату \"" ++ p.target ++ utf8 "\"" })
      | some r =>
        match Room.findMemberByClient w r c with
        | none => w.deref
        | some m =>
          match PacketMessage.processCommand env w m r p.message with
          | some w => w
          | none =>
            if (w.memberAt m).nick = [] then
              Client.sendPacket w c (.system {
                target := p.target
                message := utf8 "Перед началом общения укажите свой ник: /nick MyNick" })
            else Room.say env w r (PacketMessage.ofMember w m p.message)

def PacketOnlineList.process (w : World) (c : ClientPtr) (p : PacketOnlineList) : World :=
  match Client.getRoomByName w c p.target with
  | none => Client.sendPacket w c (.error {
      source := .onlineList, sequenceId := p.sequenceId, target := p.target, code := .notFound
      info := utf8 "Вы не подключены к комнате \"" ++ p.target ++ utf8 "\"" })
  | some r => Client.sendPacket w c (.onlineList (PacketOnlineList.ofRoom w r))

/-- How a call outside the program fails: by `DbException`, or by another exception
derived from `std::exception`. -/
inductive ExtFailure where
  | db
  | std
  deriving DecidableEq, Repr

structure DbUserInfo where
  uid : Int
  gid : Int
  login : Bytes
  deriving DecidableEq

/-- The outcomes of the calls to Redis, to the gate and to the database in one request,
one field for each place that calls. `construct` is about the constructors of `Gate` and
`Redis`, which connect. -/
structure AuthServices where
  construct : Except Unit Unit
  redisGet : Bytes → Except Unit (Option Bytes)
  gateApiKey : Except Unit Bool
  resetApiKey : Except Unit Unit
  gateLogin : Except Unit Bool
  resetLogin : Except Unit Unit
  getUserIdByApiKey : Bytes → Except ExtFailure (Option Int)
  getUserByUid : Int → Except ExtFailure (Option DbUserInfo)
  getUserByLoginAndPassword : Bytes → Bytes → Except ExtFailure (Option DbUserInfo)
  reconnect : Except ExtFailure Unit

inductive AuthCall where
  | redisGet (key : Bytes)
  | gateAuth (ip : Bytes) (reset : Bool)
  | userIdByApiKey (apiKey : Bytes)
  | userByUid (uid : Int)
  | userByLoginAndPassword (login password : Bytes)
  deriving DecidableEq

inductive AuthExit where
  | refused (code : ErrorCode) (info : Bytes)
  | failed (e : ExtFailure)
  deriving DecidableEq

/-- What a request did so far: its calls, and the user that `initUser` installed. -/
structure AuthRun where
  calls : List AuthCall := []
  user : Option DbUserInfo := none

abbrev AuthM := ExceptT AuthExit (StateM AuthRun)

def AuthM.call {α : Type} (c : AuthCall) (outcome : Except ExtFailure α) : AuthM α := do
  modify fun run => { run with calls := run.calls ++ [c] }
  match outcome with
  | .ok a => pure a
  | .error e => throw (.failed e)

/-- A call whose failures are not of the database. -/
def AuthM.callStd {α : Type} (c : AuthCall) (outcome : Except Unit α) : AuthM α :=
  AuthM.call c (outcome.mapError fun _ => .std)

def AuthM.initUser (user : DbUserInfo) : AuthM Unit := modify fun run => { run with user := some user }

/-- Pass the gate or be refused. -/
def AuthM.gate (ip : Bytes) (outcome : Except Unit Bool) : AuthM Unit := do
  let allowed ← AuthM.callStd (.gateAuth ip false) outcome
  if allowed then pure ()
  else throw (.refused .accessDenied (utf8 "Слишком частые попытки авторизации! Попробуйте позже."))

/-- The account a session record names. -/
def PacketAuth.sessionUid (session : Json) : Except Unit Int :=
  match session.isMember (utf8 "user_id") with
  | .ok true =>
    match session.get (utf8 "user_id") >>= Json.asString with
    | .ok s => (match stoi s with | some uid => .ok uid | none => .error ())
    | .error _ => .error ()
  | .ok false => .ok 0
  | .error _ => .error ()

/-- The uid that the first matching kind of credentials stands for, zero for none. A token
reaches this point when it names no other client. -/
def PacketAuth.findUid (sv : AuthServices) (ip : Bytes) (sinid : Option Bytes) (p : PacketAuth) :
    AuthM Int :=
  if p.token ≠ [] then pure 0
  else if p.ukey ≠ [] then do
    let key := utf8 "chat-key-" ++ p.ukey
    match ← AuthM.callStd (.redisGet key) (sv.redisGet key) with
    | some reply => pure (streamInt reply)
    | none => pure 0
  else if p.apiKey ≠ [] then do
    AuthM.gate ip sv.gateApiKey
    match ← AuthM.call (.userIdByApiKey p.apiKey) (sv.getUserIdByApiKey p.apiKey) with
    | some uid => do
      AuthM.callStd (.gateAuth ip true) sv.resetApiKey
      pure uid
    | none => pure 0
  else if p.name ≠ [] ∧ p.password ≠ [] then pure 0
  else match sinid with
    | none => pure 0
    | some id => do
      let key := utf8 "session:" ++ id
      match ← AuthM.callStd (.redisGet key) (sv.redisGet key) with
      | none => pure 0
      | some reply =>
        match env.parse (streamWord reply) with
        | none => pure 0
        | some session =>
          match PacketAuth.sessionUid session with
          | .ok uid => pure uid
          | .error _ => throw (.failed .std)

/-- Look the account up by the uid that was found, or by login and password. -/
def PacketAuth.lookup (sv : AuthServices) (ip : Bytes) (p : PacketAuth) (uid : Int) : AuthM Unit :=
  if uid ≠ 0 then do
    match ← AuthM.call (.userByUid uid) (sv.getUserByUid uid) with
    | some info => AuthM.initUser { info with uid := uid }
    | none => pure ()
  else if p.name ≠ [] ∧ p.password ≠ [] then do
    AuthM.gate ip sv.gateLogin
    match ← AuthM.call (.userByLoginAndPassword p.name p.password)
        (sv.getUserByLoginAndPassword p.name p.password) with
    | some info => do
      AuthM.initUser info
      AuthM.callStd (.gateAuth ip true) sv.resetLogin
    | none => throw (.refused .incorrectLoginpass (utf8 "Неверный логин/пароль!"))
  else pure ()

def PacketAuth.authenticate (sv : AuthServices) (ip : Bytes) (sinid : Option Bytes)
    (p : PacketAuth) : AuthM Unit := do
  let uid ← PacketAuth.findUid env sv ip sinid p
  PacketAuth.lookup sv ip p uid

def PacketAuth.colors : List Bytes :=
  [utf8 "gray", utf8 "#f44", utf8 "dodgerblue", utf8 "aquamarine", utf8 "deeppink"]

/-- The colour of a group. Below zero the array is read in front of its first entry. -/
def PacketAuth.color (gid : Int) : Bytes :=
  if gid < 0 then env.unset.color gid else PacketAuth.colors.getD (if gid < 5 then gid.toNat else 2) []

def PacketAuth.initUser (w : World) (c : ClientPtr) (user : DbUserInfo) : World :=
  w.modifyClient c fun cli => { cli with
    uid := UInt32.ofInt user.uid
    name := user.login
    isGirl := user.gid == 4
    color := PacketAuth.color env user.gid }

/-- The packet goes back with the identity of a client. -/
def PacketAuth.reply (w : World) (p : PacketAuth) (c : ClientPtr) : Packet :=
  .auth { p with
    userId := (w.clientAt c).uid, name := (w.clientAt c).name, token := (w.clientAt c).token }

def PacketAuth.refuse (p : PacketAuth) (code : ErrorCode) (info : Bytes) : Packet :=
  .error { source := .auth, sequenceId := p.sequenceId, code := code, info := info }

/-- The branches other than the token of another client. -/
def PacketAuth.processLogin (sv : AuthServices) (w : World) (c : ClientPtr) (p : PacketAuth) :
    World :=
  let sinid := (w.clientAt c).connection.bind env.sinid
  let (result, run) := (PacketAuth.authenticate env sv (w.clientAt c).lastClientIP sinid p).run {}
  let w := match run.user with
    | some user => PacketAuth.initUser env w c user
    | none => w
  match result with
  | .error (.refused code info) => Client.sendPacket w c (p.refuse code info)
  | .error (.failed .db) =>
    match sv.reconnect with
    | .ok _ => Client.sendPacket w c
        (p.refuse .databaseError (utf8 "Ошибка подключения к БД при авторизации!"))
    | .error _ => Client.sendPacket w c (PacketAuth.reply w p c)
  | .error (.failed .std) => Client.sendPacket w c (PacketAuth.reply w p c)
  | .ok _ => Client.sendPacket w c (PacketAuth.reply w p c)

def PacketAuth.target (w : World) (c : ClientPtr) (p : PacketAuth) : Option ClientPtr :=
  if p.token = [] then none
  else (ClientsManager.findClientByToken w p.token).filter fun t => t ≠ c

def PacketAuth.process (sv : AuthServices) (w : World) (c : ClientPtr) (p : PacketAuth) : World :=
  match sv.construct with
  | .error _ => Client.sendPacket w c (PacketAuth.reply w p c)
  | .ok _ =>
    match PacketAuth.target w c p with
    | some t =>
      -- must be first packet after revive
      let w := Client.sendPacket w c (PacketAuth.reply w p t)
      (Server.reviveClient env w c t).1
    | none => PacketAuth.processLogin env sv w c p

def PacketStatus.presenceRoom (c : ClientPtr) (stat : Status) (w : World) (r : RoomPtr) : World :=
  match Room.findMemberByClient w r c with
  | none => w
  | some m =>
    if (w.memberAt m).hasNick then
      let w := Member.setStatus w m (if stat = .back then .online else .away)
      Room.sendPacketToAll env w r (.status (PacketStatus.ofMember w m stat))
    else w

def PacketStatus.process (w : World) (c : ClientPtr) (p : PacketStatus) : World :=
  if p.status = .away ∨ p.status = .back then
    (w.clientAt c).rooms.elems.foldl (PacketStatus.presenceRoom env c p.status) w
  else if p.status = .typing ∨ p.status = .stopTyping then
    match Client.getRoomByName w c p.target with
    | none => w
    | some r =>
      match Room.findMemberByClient w r c with
      | none => w
      | some m =>
        if (w.memberAt m).hasNick then
          Room.sendPacketToAll env w r (.status (PacketStatus.ofMember w m p.status))
        else w
  else w

def PacketJoin.refuse (p : PacketJoin) (target : Bytes) (code : ErrorCode) (info : Bytes) : Packet :=
  .error { source := .join, sequenceId := p.sequenceId, target := target, code := code, info := info }

/-- The stored profile of the account, or the client's own, and the nick it gives. -/
def PacketJoin.restore (w : World) (c : ClientPtr) (r : RoomPtr) (m : MemberPtr) : Bytes × World :=
  match Room.getStoredMemberInfo w r m with
  | some info => (info.nick, Member.setColor (Member.setGirl w m info.girl) m info.color)
  | none =>
    let cli := w.clientAt c
    (cli.name, Member.setColor (Member.setGirl w m cli.isGirl) m cli.color)

def PacketJoin.rejected (nick : Bytes) (why : Bytes) : Packet :=
  .system {
    message := utf8 "Выбранный вами ранее ник (" ++ nick ++ utf8 ") " ++ why ++
      utf8 ", выберите другой ник" }

/-- Give up a nick that is banned for the member, then one that is taken. -/
def PacketJoin.checkNick (w : World) (r : RoomPtr) (m : MemberPtr) (nick : Bytes) : Bytes × World :=
  let (nick, w) :=
    if !Member.isModer w m && decide (nick ∈ (w.roomAt r).bannedNicks) then
      ([], Member.sendPacket w m (PacketJoin.rejected nick (utf8 "запрещен")))
    else (nick, w)
  if (Room.findMemberByNick w r nick).isSome then
    ([], Member.sendPacket w m (PacketJoin.rejected nick (utf8 "занят")))
  else (nick, w)

/-- The nick a new member starts with. -/
def PacketJoin.autoNick (w : World) (c : ClientPtr) (r : RoomPtr) (m : MemberPtr) (p : PacketJoin) :
    Bytes × World :=
  if p.autoLogin then
    let (nick, w) := PacketJoin.restore w c r m
    PacketJoin.checkNick w r m nick
  else ([], w)

def PacketJoin.settle (w : World) (m : MemberPtr) (nick : Bytes) : World :=
  let target := (w.roomAt (w.memberAt m).room).name
  let w := Member.sendPacket w m (.system {
    target := target
    message := utf8 "Введите /help для получения списка всех доступных команд" })
  if nick = [] then
    Member.sendPacket w m (.system {
      target := target
      message := utf8 "Перед началом общения укажите свой ник: /nick MyNick" })
  else Member.setNick env w m nick

def PacketJoin.greet (w : World) (c : ClientPtr) (r : RoomPtr) (m : MemberPtr) (p : PacketJoin) :
    World :=
  let w := Client.sendPacket w c (.join (PacketJoin.ofMember w m p.sequenceId))
  Client.sendPacket w c (.onlineList (PacketOnlineList.ofRoom w r p.sequenceId))

def PacketJoin.welcome (w : World) (c : ClientPtr) (r : RoomPtr) (m : MemberPtr) (p : PacketJoin) :
    World :=
  let w := PacketJoin.greet w c r m p
  let w := if p.loadHistory then
      (w.roomAt r).history.foldl (fun w s => Client.sendRawData w c s) w
    else w
  let (nick, w) := PacketJoin.autoNick w c r m p
  PacketJoin.settle env w m nick

def PacketJoin.process (w : World) (c : ClientPtr) (p : PacketJoin) : World :=
  match Client.getRoomByName w c p.target with
  | some _ => Client.sendPacket w c (p.refuse p.target .alreadyConnected
      (utf8 "Вы уже подключены к комнате \"" ++ p.target ++ utf8 "\""))
  | none =>
    match Server.getRoomByName w p.target with
    | none => Client.sendPacket w c (p.refuse p.target .notFound
        (utf8 "Комнаты \"" ++ p.target ++ utf8 "\" не существует"))
    | some r =>
      match Client.joinRoom w c r with
      | (w, .ok m) => PacketJoin.welcome env w c r m p
      | (w, .error .bannedByIP) => Client.sendPacket w c (p.refuse (w.roomAt r).name .userBanned
          (utf8 "Вы были забанены"))
      | (w, .error .bannedByID) => Client.sendPacket w c (p.refuse (w.roomAt r).name .userBanned
          (if (w.clientAt c).uid = 0 then
            utf8 "Гости не могут войти в эту комнату. Авторизуйтесь на сайте"
          else utf8 "Вы были забанены"))
      | (w, .error .hung) => w

def PacketTarget.refuse (p : PacketTarget) (source : PacketType) (code : ErrorCode) (info : Bytes) :
    Packet :=
  .error { source := source, sequenceId := p.sequenceId, target := p.target, code := code, info := info }

def PacketLeave.process (w : World) (c : ClientPtr) (p : PacketTarget) : World :=
  match Client.getRoomByName w c p.target with
  | none => Client.sendPacket w c (p.refuse .leave .notFound
      (utf8 "Вы не подключены к комнате \"" ++ p.target ++ utf8 "\""))
  | some r => Client.sendPacket (Client.leaveRoom env w c r) c (.leave p)

def PacketCreateRoom.process (w : World) (c : ClientPtr) (p : PacketTarget) : World :=
  if (w.clientAt c).isGuest then
    Client.sendPacket w c (p.refuse .createRoom .accessDenied
      (utf8 "Гости не могут создавать комнаты"))
  else if !Rx.roomName.fullMatch p.target then
    Client.sendPacket w c (p.refuse .createRoom .invalidTarget (utf8 "Недопустимое имя комнаты"))
  else
    match Server.createRoom w p.target with
    | (w, none) => Client.sendPacket w c (p.refuse .createRoom .alreadyExists
        (utf8 "Такая комната уже существует"))
    | (w, some r) =>
      let w := w.modifyRoom r fun rm => { rm with ownerId := (w.clientAt c).uid }
      Client.sendPacket w c (.createRoom p)

def PacketRemoveRoom.process (w : World) (c : ClientPtr) (p : PacketTarget) : World :=
  if (w.clientAt c).isGuest then
    Client.sendPacket w c (p.refuse .removeRoom .accessDenied
      (utf8 "Гости не могут удалять комнаты"))
  else
    match Server.getRoomByName w p.target with
    | none => Client.sendPacket w c (p.refuse .removeRoom .notFound
        (utf8 "Такая комната не существует"))
    | some r =>
      if (w.clientAt c).isAdmin || (w.clientAt c).uid == (w.roomAt r).ownerId then
        Client.sendPacket (Server.removeRoom env w p.target) c (.removeRoom p)
      else
        Client.sendPacket w c (p.refuse .removeRoom .accessDenied
          (utf8 "Вы не можете удалить эту комнату"))

/-- `pack->process(*this)`. -/
def Packet.process (sv : AuthServices) (w : World) (c : ClientPtr) : Packet → World
  | .error _ | .system _ | .ping _ => w
  | .message p => PacketMessage.process env w c p
  | .onlineList p => PacketOnlineList.process w c p
  | .auth p => PacketAuth.process env sv w c p
  | .status p => PacketStatus.process env w c p
  | .join p => PacketJoin.process env w c p
  | .leave p => PacketLeave.process env w c p
  | .createRoom p => PacketCreateRoom.process w c p
  | .removeRoom p => PacketRemoveRoom.process env w c p

/-- Nothing depends on what was not set. -/
theorem Packet.process_fill (unset : Unset) (sv : AuthServices) (w : World) (c : ClientPtr) (p : Packet) :
    (p.fill unset).process env sv w c = p.process env sv w c := by
  cases p with
  | auth p => rfl
  | _ => rfl

end
end WsChat
