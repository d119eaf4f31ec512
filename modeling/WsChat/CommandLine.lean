import WsChat.Admission
import WsChat.Flood
import WsChat.Lib.Matching

/-! Command lines: how a line falls into a command and its argument, who may give which
command, and the step in which a line of a member is carried out. -/
namespace WsChat
open Lib

def Command.line (cmd : Command) (arg : Bytes) : Bytes := 47 :: (cmd.getName ++ 32 :: arg)

/-- The tables let the member give the command. -/
def Command.Granted (cmd : Command) (w : World) (m : MemberPtr) : Prop :=
  (cmd ∈ cmdAdmin ∧ Member.isAdmin w m) ∨ (cmd ∈ cmdOwner ∧ Member.isOwner w m) ∨
    (cmd ∈ cmdModer ∧ Member.isModer w m) ∨ (cmd ∈ cmdUser ∧ (w.memberAt m).hasNick) ∨
    (cmd ∈ cmdAuthUser ∧ 0 < (w.clientAt (w.memberAt m).client).uid) ∨ cmd ∈ cmdAll

instance (cmd : Command) (w : World) (m : MemberPtr) : Decidable (cmd.Granted w m) :=
  inferInstanceAs (Decidable (_ ∨ _))

theorem Command.getName_word (cmd : Command) : cmd.getName ≠ [] ∧ ∀ b ∈ cmd.getName, ¬ isSpace b := by
  cases cmd with
  | styledMessage style => cases style <;> decide +kernel
  | _ => decide +kernel

def commands : List Command :=
  cmdAll ++ cmdUser ++ cmdAuthUser ++ cmdModer ++ cmdOwner ++ cmdAdmin ++ [.styledMessage .message]

theorem Command.mem_commands (cmd : Command) : cmd ∈ commands := by
  cases cmd with
  | styledMessage style => cases style <;> decide
  | _ => decide

theorem Command.getName_injective {a b : Command} (h : a.getName = b.getName) : a = b := by
  have hnodup : (commands.map Command.getName).Nodup := by decide +kernel
  exact List.inj_on_of_nodup_map hnodup a.mem_commands b.mem_commands h

theorem CommandProcessor.find_getName (cmds : List Command) (cmd : Command) :
    CommandProcessor.find cmds cmd.getName = if cmd ∈ cmds then some cmd else none := by
  induction cmds with
  | nil => rfl
  | cons c cmds ih =>
    unfold CommandProcessor.find at ih ⊢
    by_cases hc : c = cmd
    · simp [hc]
    · have hname : (c.getName == cmd.getName) = false := by
        simpa using fun h => hc (Command.getName_injective h)
      rw [List.find?_cons, hname, ih]
      simp [Ne.symm hc]

theorem PacketMessage.findCommand_getName (w : World) (m : MemberPtr) (cmd : Command) :
    PacketMessage.findCommand w m cmd.getName = if cmd.Granted w m then some cmd else none := by
  have htable : ∀ (allowed : Prop) [Decidable allowed] (cmds : List Command),
      (if allowed then CommandProcessor.find cmds cmd.getName else none) =
        if cmd ∈ cmds ∧ allowed then some cmd else none := by
    intro allowed _ cmds
    rw [CommandProcessor.find_getName]
    by_cases ha : allowed
    · simp [ha]
    · simp [ha]
  have hor : ∀ (a b : Prop) [Decidable a] [Decidable b],
      ((if a then some cmd else none).or (if b then some cmd else none)) = if a ∨ b then some cmd else none := by
    intro a b _ _
    by_cases ha : a
    · simp [ha]
    · simp [ha]
  unfold PacketMessage.findCommand Command.Granted
  simp only [Option.orElse_eq_orElse, Option.orElse_eq_or, htable, hor, and_true, decide_eq_true_eq]
  exact if_congr Iff.rfl rfl rfl

theorem Command.Granted.rights {cmd : Command} {w : World} {m : MemberPtr} (h : cmd.Granted w m) :
    (cmd ∈ cmdModer → Member.isModer w m) ∧ (cmd ∈ cmdOwner → Member.isOwner w m) ∧
      (cmd.speaks → (w.memberAt m).hasNick) :=
  PacketMessage.findCommand_rights (by rw [PacketMessage.findCommand_getName, if_pos h])

def Separated (rest : Bytes) : Prop := ∀ b ∈ rest.head?, isSpace b

/-- What is left to a command: the cursor stands in front of its argument. -/
structure RegexParser.At (p : RegexParser) (arg : Bytes) : Prop where
  suffix : p.suffix = arg
  next : p.nextInput = arg

theorem Rx.cmd_search_eq (s : Bytes) : Rx.cmd.search (47 :: s) =
    if s.takeWhile (fun b => !isSpace b) = [] then none
    else some ⟨[], 47 :: s.takeWhile (fun b => !isSpace b), s.dropWhile (fun b => !isSpace b),
      [(1, s.takeWhile fun b => !isSpace b)]⟩ := by
  have hword := Regex.head_run_rep (fun b => !isSpace b) 1 none (by simp) ⟨[47], s, []⟩
  have hrun : Regex.run (.seq (Regex.lit 47) (.group 1 (Regex.plus Rx.notSpace))) ⟨[], 47 :: s, []⟩ =
      Regex.run (.group 1 (Regex.plus Rx.notSpace)) ⟨[47], s, []⟩ := by
    simp [Regex.run, Regex.lit]
  rw [Rx.cmd, Regex.search_bol, hrun]
  change ((Regex.run (.rep 1 none (.cls fun b => !isSpace b)) ⟨[47], s, []⟩).map _).head?.map _ = _
  rw [List.head?_map, hword]
  by_cases hnil : s.takeWhile (fun b => !isSpace b) = []
  · have hreach : ¬ 1 ≤ Regex.reach (fun b => !isSpace b) none s := by simp [Regex.reach, hnil]
    rw [if_neg hreach, if_pos hnil]
    rfl
  · have hreach : 1 ≤ Regex.reach (fun b => !isSpace b) none s := List.length_pos_of_ne_nil hnil
    have htake : s.take (s.takeWhile fun b => !isSpace b).length = s.takeWhile fun b => !isSpace b :=
      List.prefix_iff_eq_take.mp (List.takeWhile_prefix _) |>.symm
    rw [if_pos hreach, if_neg hnil]
    simp [Regex.Pos.skip, Regex.Pos.since, Regex.reach, htake, Regex.drop_takeWhile_length]

theorem takeWhile_word {name rest : Bytes} (hname : ∀ b ∈ name, ¬ isSpace b) (hrest : Separated rest) :
    (name ++ rest).takeWhile (fun b => !isSpace b) = name ∧
      (name ++ rest).dropWhile (fun b => !isSpace b) = rest := by
  have hnot : ∀ b ∈ name, (!isSpace b) = true := by
    intro b hb
    simpa using hname b hb
  rw [List.takeWhile_append_of_pos hnot, List.dropWhile_append_of_pos hnot]
  cases rest with
  | nil => exact ⟨List.append_nil name, rfl⟩
  | cons b rest =>
    have hb : isSpace b := hrest b rfl
    simp [hb]

theorem Rx.cmd_search {name rest : Bytes} (hne : name ≠ []) (hname : ∀ b ∈ name, ¬ isSpace b)
    (hrest : Separated rest) :
    Rx.cmd.search (47 :: (name ++ rest)) = some ⟨[], 47 :: name, rest, [(1, name)]⟩ := by
  obtain ⟨htake, hdrop⟩ := takeWhile_word hname hrest
  rw [Rx.cmd_search_eq, htake, hdrop, if_neg hne]

theorem RegexParser.next_some {p : RegexParser} {rx : Regex UInt8} {mt : Regex.Match UInt8}
    (hne : p.nextInput ≠ []) (h : rx.search p.nextInput = some mt) :
    p.next rx = (true, {
      iter := 0, nextInput := mt.suffix, matchSuffix := mt.suffix
      groups := mt.text :: (List.range (groupCount rx)).map fun i => (mt.groups.lookup (i + 1)).getD [] }) := by
  rw [RegexParser.next, if_neg hne, h]

theorem RegexParser.next_none {p : RegexParser} {rx : Regex UInt8} (hne : p.nextInput ≠ [])
    (h : rx.search p.nextInput = none) :
    p.next rx = (false, { p with iter := -1, groups := [], matchSuffix := [] }) := by
  rw [RegexParser.next, if_neg hne, h]

theorem RegexParser.next_spaces (p : RegexParser) {rest : Bytes} (hp : p.At rest) (hrest : Separated rest) :
    (p.next Rx.spaces).2.At (rest.dropWhile isSpace) := by
  cases rest with
  | nil =>
    have hnext : p.next Rx.spaces = (false, p) := if_pos hp.next
    rw [hnext]
    exact hp
  | cons b rest =>
    have hsearch := Regex.search_plus isSpace (b :: rest)
    have hb : isSpace b := hrest b rfl
    rw [if_neg (by simp [hb])] at hsearch
    have hne : p.nextInput ≠ [] := by
      rw [hp.next]
      exact List.cons_ne_nil b rest
    rw [RegexParser.next_some hne (by rw [hp.next]; exact hsearch)]
    exact ⟨rfl, rfl⟩

section
variable {env : Env} {w : World} {e : Event} {m : MemberPtr} {c : ClientPtr} {cmd : Command}

def PacketMessage.badcmd (w : World) (m : MemberPtr) (r : RoomPtr) : World :=
  Member.sendPacket w m (.system {
    target := (w.roomAt r).name
    message := utf8 "Такая команда не существует или вы не вошли в чат" })

theorem PacketMessage.processCommand_word (env : Env) (w : World) (m : MemberPtr) (r : RoomPtr) {name rest : Bytes}
    (hne : name ≠ []) (hname : ∀ b ∈ name, ¬ isSpace b) (hrest : Separated rest) :
    ∃ parser : RegexParser, parser.At (rest.dropWhile isSpace) ∧
      PacketMessage.processCommand env w m r (47 :: (name ++ rest)) =
        some ((PacketMessage.findCommand w m name).elim (PacketMessage.badcmd w m r)
          fun command => command.process env w m parser) := by
  have hsearch := Rx.cmd_search hne hname hrest
  -- the cursor after the name was read
  let p : RegexParser := ⟨1, rest, [47 :: name, name], rest⟩
  have hp : p.At rest := ⟨rfl, rfl⟩
  have hcmd : (RegexParser.ofInput (47 :: (name ++ rest))).next Rx.cmd = (true, { p with iter := 0 }) :=
    (RegexParser.next_some (List.cons_ne_nil 47 (name ++ rest)) hsearch).trans rfl
  refine ⟨(p.next Rx.spaces).2, p.next_spaces hp hrest, ?_⟩
  unfold PacketMessage.processCommand
  rw [if_neg (by simp)]
  dsimp only
  rw [hcmd]
  have hshift : RegexParser.shift { p with iter := 0 } = (some name, p) := rfl
  dsimp only
  rw [hshift]
  dsimp only
  rw [Option.getD_some]
  cases PacketMessage.findCommand w m name with
  | none => rfl
  | some command => rfl

theorem PacketMessage.processCommand_line (env : Env) (w : World) (m : MemberPtr) (r : RoomPtr) (cmd : Command)
    {rest : Bytes} (hrest : Separated rest) :
    ∃ parser : RegexParser, parser.At (rest.dropWhile isSpace) ∧
      PacketMessage.processCommand env w m r (47 :: (cmd.getName ++ rest)) =
        some (if cmd.Granted w m then cmd.process env w m parser
          else Member.sendPacket w m (.system {
            target := (w.roomAt r).name
            message := utf8 "Такая команда не существует или вы не вошли в чат" })) := by
  obtain ⟨hne, hname⟩ := cmd.getName_word
  obtain ⟨parser, hat, hprocess⟩ := PacketMessage.processCommand_word env w m r hne hname hrest
  refine ⟨parser, hat, ?_⟩
  rw [hprocess, PacketMessage.findCommand_getName]
  by_cases hgranted : cmd.Granted w m
  · rw [if_pos hgranted, if_pos hgranted]
    rfl
  · rw [if_neg hgranted, if_neg hgranted]
    rfl

/-- The event brings a line of the member to its room. -/
structure World.Utters (w : World) (e : Event) (m : MemberPtr) (line : Bytes) : Prop where
  seated : m ∈ (w.roomAt (w.memberAt m).room).members
  heard : ∃ p, w.messageOf e (w.memberAt m).client = some p ∧
    p.target = (w.roomAt (w.memberAt m).room).name ∧ p.message = line

/-- The line of a member is refused for flooding. -/
def World.Floods (w : World) (e : Event) (m : MemberPtr) : Prop :=
  PacketMessage.Refused (w.heard e.now (w.memberAt m).client) (w.memberAt m).client

instance (w : World) (e : Event) (m : MemberPtr) : Decidable (w.Floods e m) :=
  inferInstanceAs (Decidable (PacketMessage.Refused _ _))

/-- The world in which the line of a client is carried out: it is counted. -/
def World.accepted (w : World) (now : Int) (c : ClientPtr) : World :=
  (PacketMessage.resetFlood (w.heard now c) c).modifyClient c fun cli =>
    { cli with messageCounter := cli.messageCounter + 1 }

theorem Calm.mail {w₀ : World} (h : Calm w₀ w) (c : ClientPtr) (x : Wire) : w.mail c x = w₀.mail c x := by
  rw [World.mail, World.mail, h.connection]

theorem World.heard_calm (w : World) (now : Int) (c : ClientPtr) : Calm w (w.heard now c) := by
  have hnow : Calm w { w with now := now } := ⟨rfl, rfl, rfl, fun _ => rfl, fun _ => rfl, rfl⟩
  exact hnow.touch _ rfl rfl

theorem World.accepted_calm (w : World) (now : Int) (c : ClientPtr) : Calm w (w.accepted now c) :=
  (PacketMessage.resetFlood_calm (w.heard_calm now c)).touch _ rfl rfl

@[simp] theorem World.accepted_now (w : World) (now : Int) (c : ClientPtr) : (w.accepted now c).now = now := by
  unfold World.accepted PacketMessage.resetFlood
  split
  · rfl
  · rfl

theorem Command.granted_calm {w₀ : World} (h : Calm w₀ w) (cmd : Command) (m : MemberPtr) :
    cmd.Granted w m ↔ cmd.Granted w₀ m := by
  have hadmin : Member.isAdmin w m = Member.isAdmin w₀ m :=
    Member.isAdmin_congr (by rw [h.memberAt]) (h.uid _)
  have huid : (w.clientAt (w.memberAt m).client).uid = (w₀.clientAt (w₀.memberAt m).client).uid := by
    rw [h.memberAt]
    exact h.uid _
  unfold Command.Granted
  rw [hadmin, h.isOwner, h.isModer, huid, h.memberAt]

theorem Command.line_not_blank (line : Bytes) : ¬ Rx.blank.fullMatch (47 :: line) := by
  rw [Rx.blank, Rx.space, Regex.fullMatch_star]
  simp [isSpace]

theorem World.heard_frame (w : World) (now : Int) (c : ClientPtr) : Frame w (w.heard now c) := by
  have hnow : Frame w { w with now := now } := ⟨rfl, rfl, rfl, rfl, rfl⟩
  exact hnow.trans (Frame.modifyClient _ c _ rfl rfl rfl rfl)

theorem World.accepted_frame (w : World) (now : Int) (c : ClientPtr) : Frame w (w.accepted now c) := by
  have hreset : Frame (w.heard now c) (PacketMessage.resetFlood (w.heard now c) c) := by
    unfold PacketMessage.resetFlood
    split
    · exact Frame.modifyClient _ c _ rfl rfl rfl rfl
    · exact Frame.refl _
  exact (w.heard_frame now c).trans (hreset.trans (Frame.modifyClient _ c _ rfl rfl rfl rfl))

theorem PacketMessage.process_command {c : ClientPtr} {r : RoomPtr} {p : PacketMessage} {w₁ w' : World}
    (hne : ¬ (p.target = [] ∨ p.message = [])) (hrefused : ¬ PacketMessage.Refused w c)
    (hblank : ¬ Rx.blank.fullMatch p.message)
    (hw₁ : w₁ = (PacketMessage.resetFlood w c).modifyClient c fun cli =>
      { cli with messageCounter := cli.messageCounter + 1 })
    (hr : Client.getRoomByName w₁ c p.target = some r) (hm : Room.findMemberByClient w₁ r c = some m)
    (hcmd : PacketMessage.processCommand env w₁ m r p.message = some w') :
    PacketMessage.process env w c p = w' := by
  unfold PacketMessage.Refused at hrefused
  unfold PacketMessage.process
  rw [if_neg hne]
  dsimp only
  rw [if_neg hrefused, if_neg hblank, ← hw₁, hr]
  dsimp only
  rw [hm]
  dsimp only
  rw [hcmd]

/-- What a line with the name of a command does: it is the command or, for those who may not
give it, a complaint. -/
theorem World.step_line (hw : WF env w) {rest : Bytes} (hrest : Separated rest)
    (h : w.Utters e m (47 :: (cmd.getName ++ rest))) (hflood : ¬ w.Floods e m) :
    let w' := w.accepted e.now (w.memberAt m).client
    ∃ parser : RegexParser, parser.At (rest.dropWhile isSpace) ∧
      w.step env e = if cmd.Granted w m then cmd.process env w' m parser
        else Member.reply w' m (utf8 "Такая команда не существует или вы не вошли в чат") := by
  intro w'
  obtain ⟨p, hp, htarget, hmessage⟩ := h.heard
  obtain ⟨_, _, _, _, _, _, _, hne⟩ := World.messageOf_some env hp
  have hcalm : Calm w w' := w.accepted_calm e.now _
  have hframe : Frame w w' := w.accepted_frame e.now _
  have hl : w'.membership.Linked := hframe.membership ▸ hw.linked
  have hseated : m ∈ (w'.roomAt (w.memberAt m).room).members := hcalm.roomAt ▸ h.seated
  have hclient : (w'.memberAt m).client = (w.memberAt m).client := by rw [hcalm.memberAt]
  have hjoined : (w.memberAt m).room ∈ (w'.clientAt (w.memberAt m).client).rooms :=
    (hl.joinedIff _ _).mpr ⟨m, hseated, hclient⟩
  have hroom : Client.getRoomByName w' (w.memberAt m).client p.target = some (w.memberAt m).room := by
    have hnamed := Client.getRoomByName_of_mem hl hjoined
    rwa [hcalm.roomAt, ← htarget] at hnamed
  have hmember : Room.findMemberByClient w' (w.memberAt m).room (w.memberAt m).client = some m :=
    Room.findMemberByClient_eq hl hseated hclient
  obtain ⟨parser, hat, hcmd⟩ :=
    PacketMessage.processCommand_line env w' m (w.memberAt m).room cmd hrest
  have hstep := PacketMessage.process_command hne hflood (hmessage ▸ Command.line_not_blank _) rfl hroom hmember
    (hmessage ▸ hcmd)
  refine ⟨parser, hat, ?_⟩
  rw [World.step_message hp, hstep, Member.reply, hcalm.memberAt, hcalm.roomAt]
  exact if_congr (Command.granted_calm hcalm cmd m) rfl rfl

theorem Command.line_separated (cmd : Command) (arg : Bytes) :
    cmd.line arg = 47 :: (cmd.getName ++ 32 :: arg) ∧ Separated (32 :: arg) ∧
      (32 :: arg).dropWhile isSpace = arg.dropWhile isSpace := by
  refine ⟨rfl, ?_, List.dropWhile_cons_of_pos (by decide)⟩
  intro b hb
  rw [← Option.some.inj hb]
  decide

theorem World.step_command {arg : Bytes} (hw : WF env w) (h : w.Utters e m (cmd.line arg))
    (hflood : ¬ w.Floods e m) :
    ∃ (w₁ : World) (parser : RegexParser), Calm w w₁ ∧ w₁.now = e.now ∧ parser.At (arg.dropWhile isSpace) ∧
      w.step env e = if cmd.Granted w m then cmd.process env w₁ m parser
        else Member.reply w₁ m (utf8 "Такая команда не существует или вы не вошли в чат") := by
  obtain ⟨hline, hsep, hdrop⟩ := cmd.line_separated arg
  obtain ⟨parser, hat, hstep⟩ := World.step_line hw hsep (hline ▸ h) hflood
  exact ⟨_, parser, w.accepted_calm _ _, w.accepted_now _ _, hdrop ▸ hat, hstep⟩

theorem PacketMessage.process_refused {c : ClientPtr} {p : PacketMessage}
    (hne : ¬ (p.target = [] ∨ p.message = [])) (hrefused : PacketMessage.Refused w c) :
    PacketMessage.process env w c p = Client.sendPacket (PacketMessage.resetFlood w c) c (.system {
      target := p.target, message := utf8 "Вы слишком часто пишете!" }) := by
  unfold PacketMessage.Refused at hrefused
  rw [PacketMessage.process, if_neg hne]
  dsimp only
  rw [if_pos hrefused]

theorem World.step_flood (env : Env) {line : Bytes} (h : w.Utters e m line) (hflood : w.Floods e m) :
    (w.step env e).roomAt = w.roomAt ∧ (w.step env e).memberAt = w.memberAt ∧ ∃ msg : PacketSystem,
      (w.step env e).sent = w.sent ++ w.mail (w.memberAt m).client (.packet (.system msg)) := by
  obtain ⟨p, hp, -⟩ := h.heard
  obtain ⟨_, _, _, _, _, _, _, hne⟩ := World.messageOf_some env hp
  have hcalm := PacketMessage.resetFlood_calm (c := (w.memberAt m).client)
    (w.heard_calm e.now (w.memberAt m).client)
  rw [World.step_message hp, PacketMessage.process_refused hne hflood, Client.sendPacket_eq, World.emit_roomAt,
    World.emit_sent, World.emit_memberAt, hcalm.roomAt, hcalm.memberAt, hcalm.sent]
  exact ⟨rfl, rfl, _, by rw [hcalm.mail]⟩

end
end WsChat
