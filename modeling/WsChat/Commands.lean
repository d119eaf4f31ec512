import WsChat.Clients
import WsChat.RegexParser

/-! The chat commands, their tables, and what each of them does. -/
namespace WsChat
open Lib

inductive Command where
  | help | nick | gender | color
  | styledMessage (style : Style)
  | privateMessage | privateMessageById
  | myRoomList
  | moderList | banList | banNick | banUid | banIp | unbanNick | unbanUid | unbanIp
  | kick | userList
  | addModer | delModer
  | roomList | ipCounter
  deriving DecidableEq, Repr

namespace Command

def getName : Command → Bytes
  | help => utf8 "help"
  | nick => utf8 "nick"
  | gender => utf8 "gender"
  | color => utf8 "color"
  | styledMessage .me => utf8 "me"
  | styledMessage .event => utf8 "do"
  | styledMessage .offtop => utf8 "n"
  | styledMessage .message => utf8 "?"
  | privateMessage => utf8 "msg"
  | privateMessageById => utf8 "umsg"
  | myRoomList => utf8 "myrooms"
  | moderList => utf8 "moderlist"
  | banList => utf8 "banlist"
  | banNick => utf8 "bannick"
  | banUid => utf8 "banuid"
  | banIp => utf8 "banip"
  | unbanNick => utf8 "unbannick"
  | unbanUid => utf8 "unbanuid"
  | unbanIp => utf8 "unbanip"
  | kick => utf8 "kick"
  | userList => utf8 "userlist"
  | addModer => utf8 "addmoder"
  | delModer => utf8 "delmoder"
  | roomList => utf8 "roomlist"
  | ipCounter => utf8 "ipcounter"

def getArgumentsTemplate : Command → Bytes
  | nick => utf8 "<новый ник>"
  | gender => utf8 "[f|m]"
  | color => utf8 "<цвет в hex-формате>"
  | styledMessage _ => utf8 "<сообщение>"
  | privateMessage => utf8 "<ник> <сообщение>"
  | privateMessageById => utf8 "<member_id> <сообщение>"
  | banNick | unbanNick | kick => utf8 "<ник>"
  | banUid => utf8 "<id>"
  | banIp | unbanIp => utf8 "<ip>"
  | unbanUid | addModer | delModer => utf8 "<uid>"
  | _ => []

def getDescription : Command → Bytes
  | help => utf8 "Не имею представления, зачем здесь эта команда"
  | nick => utf8 "Сменить ник"
  | gender => utf8 "Сменить пол"
  | color => utf8 "Сменить цвет. Например: #f00 (красный), #f0f000 (оттенок розового). Допускается не писать знак #"
  | styledMessage .me => utf8 "Написать сообщение-действие от своего лица"
  | styledMessage .event => utf8 "Написать сообщение от третьего лица"
  | styledMessage .offtop => utf8 "Написать оффтоп-сообщение"
  | styledMessage .message => []
  | privateMessage => utf8 "Написать личное сообщение в пределах комнаты (функция тестовая)"
  | privateMessageById =>
    utf8 "Написать личное сообщение по внутрикомнатному id пользователя (функция тестовая)"
  | myRoomList => utf8 "Список комнат, которые я создал"
  | moderList => utf8 "Показать список ID модераторов комнаты"
  | banList => utf8 "Показать общий список банов"
  | banNick => utf8 "Запретить к использованию указанный ник"
  | banUid => utf8 "Забанить аккаунт пользователя с указанным ID"
  | banIp => utf8 "Забанить IP-адрес"
  | unbanNick => utf8 "Убрать ник из списка запрещенных"
  | unbanUid => utf8 "Разбанить аккаунт пользователя с указанным ID"
  | unbanIp => utf8 "Разбанить IP-адрес"
  | kick => utf8 "Кик пользователя с указанным ником"
  | userList => utf8 "Список клиентов с ID и IP"
  | addModer => utf8 "Сделать пользователя с указанным ID аккаунта модератором"
  | delModer => utf8 "Убрать пользователя с указанным ID аккаунта из списка модераторов"
  | roomList => utf8 "Список комнат"
  | ipCounter => utf8 "Показать счетчики подключений с ip"

end Command

def cmdAll : List Command := [.help, .nick, .gender, .color]

def cmdUser : List Command :=
  [.styledMessage .me, .styledMessage .offtop, .styledMessage .event, .privateMessage,
   .privateMessageById]

def cmdAuthUser : List Command := [.myRoomList]

def cmdModer : List Command :=
  [.moderList, .banList, .banNick, .banUid, .banIp, .unbanNick, .unbanUid, .unbanIp, .kick,
   .userList]

def cmdOwner : List Command := [.addModer, .delModer]

def cmdAdmin : List Command := [.roomList, .ipCounter]

section
variable (env : Env)

def Member.reply (w : World) (m : MemberPtr) (message : Bytes) : World :=
  Member.sendPacket w m (.system {
    target := (w.roomAt (w.memberAt m).room).name
    message := message })

/-- A change of a member is told to the room, and to the member alone while it has no
nick. -/
def Member.announce (w : World) (m : MemberPtr) (stat : Status) : World :=
  let p := Packet.status (PacketStatus.ofMember w m stat)
  if (w.memberAt m).hasNick then Room.sendPacketToAll env w (w.memberAt m).room p
  else Member.sendPacket w m p

def createHelpForCommands (cmds : List Command) : Bytes :=
  cmds.flatMap fun cmd =>
    utf8 "/" ++ cmd.getName ++ utf8 " " ++ cmd.getArgumentsTemplate ++ utf8 "\n" ++
      utf8 "\t" ++ cmd.getDescription ++ utf8 "\n"

def CommandHelp.process (w : World) (m : MemberPtr) : World :=
  Member.reply w m
    (utf8 "\nДоступные команды:\n" ++ createHelpForCommands cmdAll ++ createHelpForCommands cmdUser ++
      (if 0 < (w.clientAt (w.memberAt m).client).uid then createHelpForCommands cmdAuthUser else []) ++
      (if Member.isOwner w m then
        utf8 "\nВладелец комнаты:\n" ++ createHelpForCommands cmdOwner else []) ++
      (if Member.isModer w m then
        utf8 "\nМодератор комнаты:\n" ++ createHelpForCommands cmdModer else []) ++
      (if Member.isAdmin w m then utf8 "\nАдмин:\n" ++ createHelpForCommands cmdAdmin else []))

/-- The three rewrites of the argument of `/nick`. -/
def CommandNick.normalize (nick : Bytes) : Bytes :=
  Rx.longSpaces.replace [32] (Rx.spaces.replace [] (Rx.endSpaces.replace [] nick))

def CommandNick.process (w : World) (m : MemberPtr) (parser : RegexParser) : World :=
  let room := (w.memberAt m).room
  let nick := CommandNick.normalize parser.suffix
  if nick = [] ∨ Rx.login.fullMatch nick then
    if nick ≠ [] ∧ (Room.findMemberByNick w room nick).isSome then
      Member.reply w m (utf8 "Такой ник уже занят")
    else Member.setNick env w m nick
  else
    Member.reply w m (utf8
      "Ник должен содержать только латинские буквоцифры, символы '._-', пробелы и не длинее 24 символов")

def CommandGender.argument (parser : RegexParser) : Option UInt8 :=
  match parser.next Rx.toSpace with
  | (true, parser) =>
    match parser.read 0 with
    | some (b :: _) => if b = 102 ∨ b = 109 then some b else none
    | _ => none
  | (false, _) => none

def CommandGender.process (w : World) (m : MemberPtr) (parser : RegexParser) : World :=
  let girl := match CommandGender.argument parser with
    | none => !(w.memberAt m).girl
    | some b => b == 102
  Member.announce env (Member.setGirl w m girl) m .genderChange

def CommandColor.argument (parser : RegexParser) : Bytes :=
  match parser.next Rx.color with
  | (true, parser) =>
    match parser.read 0 with
    | some (35 :: clr) => 35 :: clr
    | some clr => 35 :: clr
    | none => []
  | (false, _) => []

def CommandColor.process (w : World) (m : MemberPtr) (parser : RegexParser) : World :=
  let clr := CommandColor.argument parser
  if clr = [] then Member.reply w m (utf8 "Указан неверный цвет")
  else Member.announce env (Member.setColor w m clr) m .colorChange

def Room.say (w : World) (r : RoomPtr) (p : PacketMessage) : World :=
  let (id, w) := Room.newMessageId w r
  Room.sendPacketToAll env w r (.message { p with id := decimal id.toNat })

def CommandStyledMessage.process (style : Style) (w : World) (m : MemberPtr)
    (parser : RegexParser) : World :=
  let smsg := parser.suffix
  if Rx.blank.fullMatch smsg then
    Member.reply w m (utf8 "Вы забыли написать текст сообщения :(")
  else
    Room.say env w (w.memberAt m).room { PacketMessage.ofMember w m smsg with style := style }

def Member.whisper (w : World) (m : MemberPtr) (m2 : Option MemberPtr) (smsg : Bytes) : World :=
  if Rx.blank.fullMatch smsg then
    Member.reply w m (utf8 "Вы забыли написать текст сообщения :(")
  else
    match m2 with
    | none => Member.reply w m (utf8 "Указанный пользователь не найден")
    | some m2 =>
      let pmsg := Packet.message (PacketMessage.ofMembers w m m2 smsg)
      Member.sendPacket (Member.sendPacket w m pmsg) m2 pmsg

def CommandPrivateMessage.text (parser : RegexParser) : Bytes :=
  match parser.next Rx.spaces with
  | (true, parser) => parser.suffix
  | (false, _) => []

def CommandPrivateMessage.process (w : World) (m : MemberPtr) (parser : RegexParser) : World :=
  let (found, parser) := parser.next Rx.toSpace
  let part := if found then (parser.read 0).getD [] else []
  Member.whisper w m (Room.findMemberByNick w (w.memberAt m).room part)
    (CommandPrivateMessage.text parser)

def CommandPrivateMessageById.process (w : World) (m : MemberPtr) (parser : RegexParser) : World :=
  let (found, parser) := parser.next Rx.int
  let mid := if found then streamUInt ((parser.read 0).getD []) else 0
  let parser := (parser.next Rx.toSpace).2
  Member.whisper w m
    ((Room.findMemberById w (w.memberAt m).room mid).filter fun m2 => (w.memberAt m2).hasNick)
    (CommandPrivateMessage.text parser)

def CommandMyRoomList.process (w : World) (m : MemberPtr) : World :=
  let uid := (w.clientAt (w.memberAt m).client).uid
  Member.reply w m (utf8 "Мои комнаты:\n" ++
    (w.rooms.elems.filter fun r => uid == (w.roomAt r).ownerId).flatMap fun r =>
      (w.roomAt r).name ++ utf8 "\n")

def CommandModerList.process (w : World) (m : MemberPtr) : World :=
  let rm := w.roomAt (w.memberAt m).room
  Member.reply w m (utf8 "Модераторы:" ++
    rm.moderators.elems.flatMap fun uid => utf8 "\n" ++ decimal uid.toNat)

def CommandBanList.process (w : World) (m : MemberPtr) : World :=
  let rm := w.roomAt (w.memberAt m).room
  Member.reply w m
    (utf8 "Забаненные ники (" ++ decimal rm.bannedNicks.size ++ utf8 "):\n" ++
      (rm.bannedNicks.elems.flatMap fun s => s ++ utf8 "\n") ++
      utf8 "Забаненные аккаунты (" ++ decimal rm.bannedUids.size ++ utf8 "):\n" ++
      (rm.bannedUids.elems.flatMap fun s => decimal s.toNat ++ utf8 "\n") ++
      utf8 "Забаненные IP (" ++ decimal rm.bannedIps.size ++ utf8 "):\n" ++
      (rm.bannedIps.elems.flatMap fun s => s ++ utf8 "\n"))

/-- Everyone but an admin is refused once a list holds more than `limit` entries. -/
def Member.overLimit (w : World) (m : MemberPtr) (size limit : Nat) : Bool :=
  !Member.isAdmin w m && limit < size

/-- The nick is the whole argument, of at most 24 bytes. -/
def Command.withNick (w : World) (m : MemberPtr) (parser : RegexParser) (act : Bytes → World) :
    World :=
  let nick := parser.suffix
  if 24 < nick.length ∨ nick = [] then Member.reply w m (utf8 "Некорректный ник") else act nick

/-- The number at the front of the argument. -/
def Command.withUid (w : World) (m : MemberPtr) (parser : RegexParser) (act : UInt32 → World) :
    World :=
  match parser.next Rx.int with
  | (true, parser) => act (streamUInt ((parser.read 0).getD []))
  | (false, _) => Member.reply w m (utf8 "Укажите ID аккаунта пользователя")

/-- The address at the front of the argument. -/
def Command.withIp (w : World) (m : MemberPtr) (parser : RegexParser) (refusal : Bytes)
    (act : Bytes → World) : World :=
  match parser.next Rx.ip with
  | (true, parser) => act ((parser.read 0).getD [])
  | (false, _) => Member.reply w m refusal

/-- Change a set of the room and say whether that changed anything. -/
def Command.update (w : World) (m : MemberPtr) (changes : Bool) (f : Room → Room)
    (done same : Bytes) : World :=
  if changes then Member.reply (w.modifyRoom (w.memberAt m).room f) m done
  else Member.reply w m same

def CommandBanNick.process (w : World) (m : MemberPtr) (parser : RegexParser) : World :=
  let room := (w.memberAt m).room
  let banned := (w.roomAt room).bannedNicks
  if Member.overLimit w m banned.size 100 then
    Member.reply w m (utf8 "Превышен лимит на количество запрещенных ников")
  else
    Command.withNick w m parser fun nick =>
      if nick ∈ banned then Member.reply w m (utf8 "Ник уже запрещен")
      else
        let w := w.modifyRoom room fun rm => { rm with bannedNicks := rm.bannedNicks.insert nick }
        let w := match Room.findMemberByNick w room nick with
          | some m => Room.kickMember env w room m
          | none => w
        Member.reply w m (utf8 "Ник запрещен")

def CommandUnbanNick.process (w : World) (m : MemberPtr) (parser : RegexParser) : World :=
  Command.withNick w m parser fun nick =>
    Command.update w m (nick ∈ (w.roomAt (w.memberAt m).room).bannedNicks)
      (fun rm => { rm with bannedNicks := rm.bannedNicks.erase nick })
      (utf8 "Разбанен") (utf8 "Ник не был забанен")

def CommandBanUid.process (w : World) (m : MemberPtr) (parser : RegexParser) : World :=
  let banned := (w.roomAt (w.memberAt m).room).bannedUids
  if Member.overLimit w m banned.size 100 then
    Member.reply w m (utf8 "Превышен лимит на количество забаненных аккаунтов")
  else
    Command.withUid w m parser fun uid =>
      Command.update w m (uid ∉ banned)
        (fun rm => { rm with bannedUids := rm.bannedUids.insert uid })
        (utf8 "Аккаунт забанен") (utf8 "Аккаунт уже в списке забаненных")

def CommandUnbanUid.process (w : World) (m : MemberPtr) (parser : RegexParser) : World :=
  Command.withUid w m parser fun uid =>
    Command.update w m (uid ∈ (w.roomAt (w.memberAt m).room).bannedUids)
      (fun rm => { rm with bannedUids := rm.bannedUids.erase uid })
      (utf8 "Аккаунт разбанен") (utf8 "Аккаунт не был забанен")

def CommandBanIp.process (w : World) (m : MemberPtr) (parser : RegexParser) : World :=
  let banned := (w.roomAt (w.memberAt m).room).bannedIps
  if Member.overLimit w m banned.size 100 then
    Member.reply w m (utf8 "Превышен лимит на количество забаненных IP")
  else
    Command.withIp w m parser (utf8 "Укажите корректный IP-адрес") fun ip =>
      Command.update w m (ip ∉ banned)
        (fun rm => { rm with bannedIps := rm.bannedIps.insert ip })
        (utf8 "IP забанен") (utf8 "IP уже в списке забаненных")

def CommandUnbanIp.process (w : World) (m : MemberPtr) (parser : RegexParser) : World :=
  Command.withIp w m parser (utf8 "Укажите ID аккаунта пользователя") fun ip =>
    Command.update w m (ip ∈ (w.roomAt (w.memberAt m).room).bannedIps)
      (fun rm => { rm with bannedIps := rm.bannedIps.erase ip })
      (utf8 "IP разбанен") (utf8 "IP не был забанен")

def CommandKick.process (w : World) (m : MemberPtr) (parser : RegexParser) : World :=
  let room := (w.memberAt m).room
  match Room.findMemberByNick w room parser.suffix with
  | some m2 => Room.kickMember env w room m2
  | none => Member.reply w m (utf8 "Такой пользователь не найден")

def CommandUserList.process (w : World) (m : MemberPtr) : World :=
  Member.reply w m (utf8 "Пользователи:\n" ++
    (w.roomAt (w.memberAt m).room).members.elems.flatMap fun x =>
      let mem := w.memberAt x
      let cli := w.clientAt mem.client
      utf8 "#" ++ decimal mem.id.toNat ++ utf8 " " ++ mem.nick ++ utf8 " (uid " ++
        decimal cli.uid.toNat ++ utf8 ", " ++ cli.lastClientIP ++ utf8 ")\n")

def CommandAddModer.process (w : World) (m : MemberPtr) (parser : RegexParser) : World :=
  let mods := (w.roomAt (w.memberAt m).room).moderators
  if Member.overLimit w m mods.size 10 then
    Member.reply w m (utf8 "Превышен лимит на количество модераторов")
  else
    Command.withUid w m parser fun uid =>
      if uid = 0 then Member.reply w m (utf8 "Гостя нельзя назначить модератором")
      else
        Command.update w m (uid ∉ mods)
          (fun rm => { rm with moderators := rm.moderators.insert uid })
          (utf8 "Модератор добавлен") (utf8 "Пользователь уже в списке модераторов")

def CommandDelModer.process (w : World) (m : MemberPtr) (parser : RegexParser) : World :=
  Command.withUid w m parser fun uid =>
    Command.update w m (uid ∈ (w.roomAt (w.memberAt m).room).moderators)
      (fun rm => { rm with moderators := rm.moderators.erase uid })
      (utf8 "Модератор убран") (utf8 "Пользователь не является модератором")

def CommandRoomList.process (w : World) (m : MemberPtr) : World :=
  Member.reply w m (utf8 "Комнаты:\n" ++
    w.rooms.elems.flatMap fun r =>
      decimal (w.roomAt r).ownerId.toNat ++ utf8 ": " ++ (w.roomAt r).name ++ utf8 "\n")

def CommandIpCounter.process (w : World) (m : MemberPtr) : World :=
  Member.reply w m (utf8 "Подключения:\n" ++
    w.manager.countersFromIp.entries.flatMap fun c =>
      c.1 ++ utf8 " - (cli: " ++ decimal c.2.clients ++ utf8 ", conn: " ++
        decimal c.2.connections ++ utf8 ")\n")

def Command.process (cmd : Command) (w : World) (m : MemberPtr) (parser : RegexParser) : World :=
  match cmd with
  | .help => CommandHelp.process w m
  | .nick => CommandNick.process env w m parser
  | .gender => CommandGender.process env w m parser
  | .color => CommandColor.process env w m parser
  | .styledMessage style => CommandStyledMessage.process env style w m parser
  | .privateMessage => CommandPrivateMessage.process w m parser
  | .privateMessageById => CommandPrivateMessageById.process w m parser
  | .myRoomList => CommandMyRoomList.process w m
  | .moderList => CommandModerList.process w m
  | .banList => CommandBanList.process w m
  | .banNick => CommandBanNick.process env w m parser
  | .banUid => CommandBanUid.process w m parser
  | .banIp => CommandBanIp.process w m parser
  | .unbanNick => CommandUnbanNick.process w m parser
  | .unbanUid => CommandUnbanUid.process w m parser
  | .unbanIp => CommandUnbanIp.process w m parser
  | .kick => CommandKick.process env w m parser
  | .userList => CommandUserList.process w m
  | .addModer => CommandAddModer.process w m parser
  | .delModer => CommandDelModer.process w m parser
  | .roomList => CommandRoomList.process w m
  | .ipCounter => CommandIpCounter.process w m

/-- `CommandProcessor::process`: the command of a table with the given name. -/
def CommandProcessor.find (cmds : List Command) (cmd : Bytes) : Option Command :=
  cmds.find? fun c => c.getName == cmd

end
end WsChat
